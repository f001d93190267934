import ChipEight.Instruction.Encoding
import ChipEight.Numeric.Hex

/-!
# Assembly text

Each instruction has a mnemonic of its own, a list of operands, and a line of
assembly in which several instructions share a name and differ in the form of
their operands.
-/

namespace ChipEight
namespace Instruction

def mnemonic : Instruction → String
  | clear => "CLS"
  | ret => "RET"
  | sys _ => "SYS"
  | jump _ => "JP"
  | call _ => "CALL"
  | skipEqByte _ _ => "SE_BYTE"
  | skipNeByte _ _ => "SNE_BYTE"
  | skipEqReg _ _ => "SE_REG"
  | loadByte _ _ => "LD_BYTE"
  | addByte _ _ => "ADD_BYTE"
  | copy _ _ => "LD_REG"
  | or _ _ => "OR"
  | and _ _ => "AND"
  | xor _ _ => "XOR"
  | addReg _ _ => "ADD_REG"
  | sub _ _ => "SUB"
  | shiftRight _ _ => "SHR"
  | subFrom _ _ => "SUBN"
  | shiftLeft _ _ => "SHL"
  | skipNeReg _ _ => "SNE_REG"
  | loadIndex _ => "LD_INDEX"
  | jumpOffset _ => "JP_V0"
  | random _ _ => "RND"
  | draw _ _ _ => "DRW"
  | skipPressed _ => "SKP"
  | skipReleased _ => "SKNP"
  | readDelay _ => "LD_DELAY"
  | waitKey _ => "LD_KEY"
  | setDelay _ => "SET_DELAY"
  | setSound _ => "SET_SOUND"
  | addIndex _ => "ADD_INDEX"
  | glyph _ => "LD_FONT"
  | decimal _ => "BCD"
  | store _ => "STORE"
  | load _ => "LOAD"

def operands : Instruction → List Nat
  | clear | ret => []
  | sys a | jump a | call a | loadIndex a | jumpOffset a => [a.toNat]
  | skipEqByte x b | skipNeByte x b | loadByte x b | addByte x b | random x b =>
    [x.val, b.toNat]
  | skipEqReg x y | skipNeReg x y | copy x y | or x y | and x y | xor x y | addReg x y
  | sub x y | shiftRight x y | subFrom x y | shiftLeft x y => [x.val, y.val]
  | draw x y n => [x.val, y.val, n.val]
  | skipPressed x | skipReleased x | readDelay x | waitKey x | setDelay x | setSound x
  | addIndex x | glyph x | decimal x | store x | load x => [x.val]

/-- The number of a register or a count of sprite rows. -/
def nibble? (n : Int) : Option (Fin 16) :=
  if h : 0 ≤ n ∧ n < 16 then some ⟨n.toNat, by omega⟩ else none

def registerText (x : Register) : String := "V" ++ Hex.plain x.val

def byteText (b : Byte) : String := Hex.padded 2 b.toNat

def addressText (a : Word) : String := Hex.padded 3 a.toNat

def assembly : Instruction → String
  | clear => "CLS"
  | ret => "RET"
  | sys a => "SYS  " ++ addressText a
  | jump a => "JP   " ++ addressText a
  | call a => "CALL " ++ addressText a
  | skipEqByte x b => "SE   " ++ registerText x ++ ", " ++ byteText b
  | skipNeByte x b => "SNE  " ++ registerText x ++ ", " ++ byteText b
  | skipEqReg x y => "SE   " ++ registerText x ++ ", " ++ registerText y
  | loadByte x b => "LD   " ++ registerText x ++ ", " ++ byteText b
  | addByte x b => "ADD  " ++ registerText x ++ ", " ++ byteText b
  | copy x y => "LD   " ++ registerText x ++ ", " ++ registerText y
  | or x y => "OR   " ++ registerText x ++ ", " ++ registerText y
  | and x y => "AND  " ++ registerText x ++ ", " ++ registerText y
  | xor x y => "XOR  " ++ registerText x ++ ", " ++ registerText y
  | addReg x y => "ADD  " ++ registerText x ++ ", " ++ registerText y
  | sub x y => "SUB  " ++ registerText x ++ ", " ++ registerText y
  | shiftRight x _ => "SHR  " ++ registerText x
  | subFrom x y => "SUBN " ++ registerText x ++ ", " ++ registerText y
  | shiftLeft x _ => "SHL  " ++ registerText x
  | skipNeReg x y => "SNE  " ++ registerText x ++ ", " ++ registerText y
  | loadIndex a => "LD   I, " ++ addressText a
  | jumpOffset a => "JP   V0, " ++ addressText a
  | random x b => "RND  " ++ registerText x ++ ", " ++ byteText b
  | draw x y n =>
    "DRW  " ++ registerText x ++ ", " ++ registerText y ++ ", " ++ Hex.plain n.val
  | skipPressed x => "SKP  " ++ registerText x
  | skipReleased x => "SKNP " ++ registerText x
  | readDelay x => "LD   " ++ registerText x ++ ", DT"
  | waitKey x => "LD   " ++ registerText x ++ ", K"
  | setDelay x => "LD   DT, " ++ registerText x
  | setSound x => "LD   ST, " ++ registerText x
  | addIndex x => "ADD  I, " ++ registerText x
  | glyph x => "LD   F, " ++ registerText x
  | decimal x => "LD   B, " ++ registerText x
  | store x => "LD   [I], " ++ registerText x
  | load x => "LD   " ++ registerText x ++ ", [I]"

end Instruction

/-- The assembly text of a word; a word that is no instruction is shown as data. -/
def Word.disassemble (w : Word) : String :=
  match Instruction.decode w with
  | some i => i.assembly
  | none => "DATA " ++ Hex.padded 4 w.toNat

end ChipEight

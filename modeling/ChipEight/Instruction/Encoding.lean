import ChipEight.Instruction.Basic

/-!
# Instruction words

Decoding and encoding. A word that is no instruction decodes to nothing, since a
program is free to keep data among its code. Encoding is its inverse on operands
that fit; the two register comparisons leave their low nibble unused, and it is
written as zero.
-/

namespace ChipEight
namespace Instruction

def decodeArithmetic (x y : Register) : Nat → Option Instruction
  | 0x0 => some (copy x y)
  | 0x1 => some (or x y)
  | 0x2 => some (and x y)
  | 0x3 => some (xor x y)
  | 0x4 => some (addReg x y)
  | 0x5 => some (sub x y)
  | 0x6 => some (shiftRight x y)
  | 0x7 => some (subFrom x y)
  | 0xE => some (shiftLeft x y)
  | _ => none

/-- Keypad tests, told apart by the low byte. -/
def decodeKeypad (x : Register) : Nat → Option Instruction
  | 0x9E => some (skipPressed x)
  | 0xA1 => some (skipReleased x)
  | _ => none

/-- Timers, index and memory, told apart by the low byte. -/
def decodeTransfer (x : Register) : Nat → Option Instruction
  | 0x07 => some (readDelay x)
  | 0x0A => some (waitKey x)
  | 0x15 => some (setDelay x)
  | 0x18 => some (setSound x)
  | 0x1E => some (addIndex x)
  | 0x29 => some (glyph x)
  | 0x33 => some (decimal x)
  | 0x55 => some (store x)
  | 0x65 => some (load x)
  | _ => none

def decode (w : Word) : Option Instruction :=
  let x := Word.x w
  let y := Word.y w
  let byte := Word.byte w
  let address := Word.address w
  match Word.family w with
  | 0x0 =>
    if w.toNat = 0x00E0 then some clear
    else if w.toNat = 0x00EE then some ret
    else some (sys address)
  | 0x1 => some (jump address)
  | 0x2 => some (call address)
  | 0x3 => some (skipEqByte x byte)
  | 0x4 => some (skipNeByte x byte)
  | 0x5 => some (skipEqReg x y)
  | 0x6 => some (loadByte x byte)
  | 0x7 => some (addByte x byte)
  | 0x8 => decodeArithmetic x y (w.toNat % 16)
  | 0x9 => some (skipNeReg x y)
  | 0xA => some (loadIndex address)
  | 0xB => some (jumpOffset address)
  | 0xC => some (random x byte)
  | 0xD => some (draw x y (Word.nibble w))
  | 0xE => decodeKeypad x (w.toNat % 256)
  | _ => decodeTransfer x (w.toNat % 256)

/-- Only the low sixteen bits of an operation word count. -/
def ofInt? (w : Int) : Option Instruction :=
  decode (BitVec.ofInt 16 w)

theorem ofInt?_toNat (w : Word) : ofInt? w.toNat = decode w := by
  rw [ofInt?, BitVec.ofInt_natCast, BitVec.ofNat_toNat, BitVec.setWidth_eq]

def wordOfNibbles (family x y n : Nat) : Word :=
  BitVec.ofNat 16 (family * 4096 + x * 256 + y * 16 + n)

def wordOfByte (family x byte : Nat) : Word :=
  BitVec.ofNat 16 (family * 4096 + x * 256 + byte)

def wordOfAddress (family address : Nat) : Word :=
  BitVec.ofNat 16 (family * 4096 + address)

def encode : Instruction → Word
  | clear => 0x00E0#16
  | ret => 0x00EE#16
  | sys a => wordOfAddress 0x0 a.toNat
  | jump a => wordOfAddress 0x1 a.toNat
  | call a => wordOfAddress 0x2 a.toNat
  | skipEqByte x b => wordOfByte 0x3 x b.toNat
  | skipNeByte x b => wordOfByte 0x4 x b.toNat
  | skipEqReg x y => wordOfNibbles 0x5 x y 0x0
  | loadByte x b => wordOfByte 0x6 x b.toNat
  | addByte x b => wordOfByte 0x7 x b.toNat
  | copy x y => wordOfNibbles 0x8 x y 0x0
  | or x y => wordOfNibbles 0x8 x y 0x1
  | and x y => wordOfNibbles 0x8 x y 0x2
  | xor x y => wordOfNibbles 0x8 x y 0x3
  | addReg x y => wordOfNibbles 0x8 x y 0x4
  | sub x y => wordOfNibbles 0x8 x y 0x5
  | shiftRight x y => wordOfNibbles 0x8 x y 0x6
  | subFrom x y => wordOfNibbles 0x8 x y 0x7
  | shiftLeft x y => wordOfNibbles 0x8 x y 0xE
  | skipNeReg x y => wordOfNibbles 0x9 x y 0x0
  | loadIndex a => wordOfAddress 0xA a.toNat
  | jumpOffset a => wordOfAddress 0xB a.toNat
  | random x b => wordOfByte 0xC x b.toNat
  | draw x y n => wordOfNibbles 0xD x y n
  | skipPressed x => wordOfByte 0xE x 0x9E
  | skipReleased x => wordOfByte 0xE x 0xA1
  | readDelay x => wordOfByte 0xF x 0x07
  | waitKey x => wordOfByte 0xF x 0x0A
  | setDelay x => wordOfByte 0xF x 0x15
  | setSound x => wordOfByte 0xF x 0x18
  | addIndex x => wordOfByte 0xF x 0x1E
  | glyph x => wordOfByte 0xF x 0x29
  | decimal x => wordOfByte 0xF x 0x33
  | store x => wordOfByte 0xF x 0x55
  | load x => wordOfByte 0xF x 0x65

/-- Whether the operands have a word: addresses have twelve bits, and two of the
system addresses belong to other instructions. -/
def Encodable : Instruction → Prop
  | sys a => a.toNat < 4096 ∧ a.toNat ≠ 0x0E0 ∧ a.toNat ≠ 0x0EE
  | jump a => a.toNat < 4096
  | call a => a.toNat < 4096
  | loadIndex a => a.toNat < 4096
  | jumpOffset a => a.toNat < 4096
  | _ => True

end Instruction
end ChipEight

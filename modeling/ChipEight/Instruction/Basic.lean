/-!
# Instructions

The 35 instructions with typed operands, and the fields of an instruction word:

       15-12     11-8      7-4       3-0
      family      x         y         n
              |-------- address --------|
                        |----- byte ----|
-/

namespace ChipEight

abbrev Byte := BitVec 8

abbrev Word := BitVec 16

abbrev Register := Fin 16

/-- Registers and keys are written as numerals. -/
instance sixteenNeZero : @NeZero Nat Zero.ofOfNat0 16 := ⟨Nat.succ_ne_zero 15⟩

/-- The register that receives carries, borrows and collisions. -/
def flagRegister : Register := 15

/-- An instruction. Addresses are whole words here, because an instruction can be
given directly; a decoded one has twelve bits. The shifts carry a second register
that they do not use. -/
inductive Instruction
  | clear
  | ret
  | sys (address : Word)
  | jump (address : Word)
  | call (address : Word)
  | skipEqByte (x : Register) (byte : Byte)
  | skipNeByte (x : Register) (byte : Byte)
  | skipEqReg (x y : Register)
  | loadByte (x : Register) (byte : Byte)
  | addByte (x : Register) (byte : Byte)
  | copy (x y : Register)
  | or (x y : Register)
  | and (x y : Register)
  | xor (x y : Register)
  | addReg (x y : Register)
  | sub (x y : Register)
  | shiftRight (x y : Register)
  | subFrom (x y : Register)
  | shiftLeft (x y : Register)
  | skipNeReg (x y : Register)
  | loadIndex (address : Word)
  | jumpOffset (address : Word)
  | random (x : Register) (byte : Byte)
  | draw (x y : Register) (rows : Fin 16)
  | skipPressed (x : Register)
  | skipReleased (x : Register)
  | readDelay (x : Register)
  | waitKey (x : Register)
  | setDelay (x : Register)
  | setSound (x : Register)
  | addIndex (x : Register)
  | glyph (x : Register)
  | decimal (x : Register)
  | store (x : Register)
  | load (x : Register)
  deriving DecidableEq

namespace Word

def family (w : Word) : Nat := w.toNat / 4096

def x (w : Word) : Register := ⟨w.toNat / 256 % 16, Nat.mod_lt _ (by decide)⟩

def y (w : Word) : Register := ⟨w.toNat / 16 % 16, Nat.mod_lt _ (by decide)⟩

def nibble (w : Word) : Fin 16 := ⟨w.toNat % 16, Nat.mod_lt _ (by decide)⟩

def byte (w : Word) : Byte := BitVec.ofNat 8 w.toNat

def address (w : Word) : Word := BitVec.ofNat 16 (w.toNat % 4096)

@[simp] theorem x_val (w : Word) : (x w).val = w.toNat / 256 % 16 := rfl

@[simp] theorem y_val (w : Word) : (y w).val = w.toNat / 16 % 16 := rfl

@[simp] theorem nibble_val (w : Word) : (nibble w).val = w.toNat % 16 := rfl

@[simp] theorem byte_toNat (w : Word) : (byte w).toNat = w.toNat % 256 :=
  BitVec.toNat_ofNat _ _

theorem address_toNat (w : Word) : (address w).toNat = w.toNat % 4096 := by
  rw [address, BitVec.toNat_ofNat]
  omega

/-- A sum that runs over the sixteen bits does not show in the lower twelve. -/
theorem address_add_toNat (v w : Word) :
    (address (v + w)).toNat = (v.toNat + w.toNat) % 4096 := by
  rw [address_toNat, BitVec.toNat_add]
  omega

end Word
end ChipEight

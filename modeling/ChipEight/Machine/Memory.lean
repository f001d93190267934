import ChipEight.Instruction.Basic

/-!
# Memory

4096 bytes, addressed modulo their number. Blocks are read and written byte by
byte, so a block that runs past the last address goes on at the first.
-/

namespace ChipEight

abbrev Memory := Vector Byte 4096

namespace Memory

def size : Nat := 4096

def read (mem : Memory) (a : Nat) : Byte := mem[a % 4096]

def write (mem : Memory) (a : Nat) (b : Byte) : Memory := mem.set (a % 4096) b

def writeBlock (mem : Memory) (a : Nat) : List Byte → Memory
  | [] => mem
  | b :: bs => writeBlock (mem.write a b) (a + 1) bs

def readBlock (mem : Memory) (a count : Nat) : List Byte :=
  (List.range count).map fun k => mem.read (a + k)

/-- The big-endian word at an address. -/
def readWord (mem : Memory) (a : Nat) : Word :=
  BitVec.ofNat 16 ((mem.read a).toNat * 256 + (mem.read (a + 1)).toNat)

/-- Five bytes for each of the sixteen hexadecimal digits. A glyph is four pixels
wide, in the high half of its bytes. -/
def font : List Byte := [
  0xF0, 0x90, 0x90, 0x90, 0xF0,
  0x20, 0x60, 0x20, 0x20, 0x70,
  0xF0, 0x10, 0xF0, 0x80, 0xF0,
  0xF0, 0x10, 0xF0, 0x10, 0xF0,
  0x90, 0x90, 0xF0, 0x10, 0x10,
  0xF0, 0x80, 0xF0, 0x10, 0xF0,
  0xF0, 0x80, 0xF0, 0x90, 0xF0,
  0xF0, 0x10, 0x20, 0x40, 0x40,
  0xF0, 0x90, 0xF0, 0x90, 0xF0,
  0xF0, 0x90, 0xF0, 0x10, 0xF0,
  0xF0, 0x90, 0xF0, 0x90, 0x90,
  0xE0, 0x90, 0xE0, 0x90, 0xE0,
  0xF0, 0x80, 0x80, 0x80, 0xF0,
  0xF0, 0x90, 0x90, 0x90, 0xE0,
  0xF0, 0x80, 0xF0, 0x80, 0xF0,
  0xF0, 0x80, 0xF0, 0x80, 0x80]

def glyphSize : Nat := 5

def zero : Memory := Vector.replicate 4096 0

def initial : Memory := zero.writeBlock 0 font

theorem length_font : font.length = 80 := rfl

theorem read_write (mem : Memory) (a c : Nat) (b : Byte) :
    (mem.write a b).read c = if a % 4096 = c % 4096 then b else mem.read c := by
  simp only [read, write, Vector.getElem_set]

@[simp] theorem writeBlock_nil (mem : Memory) (a : Nat) : mem.writeBlock a [] = mem := rfl

@[simp] theorem writeBlock_cons (mem : Memory) (a : Nat) (b : Byte) (bs : List Byte) :
    mem.writeBlock a (b :: bs) = (mem.write a b).writeBlock (a + 1) bs := rfl

@[simp] theorem length_readBlock (mem : Memory) (a count : Nat) :
    (mem.readBlock a count).length = count := by
  simp [readBlock]

theorem read_writeBlock_of_forall_ne (mem : Memory) (a c : Nat) (bs : List Byte)
    (h : ∀ k, k < bs.length → (a + k) % 4096 ≠ c % 4096) :
    (mem.writeBlock a bs).read c = mem.read c := by
  induction bs generalizing mem a with
  | nil => rfl
  | cons b bs ih =>
    have hfirst : a % 4096 ≠ c % 4096 := h 0 (Nat.succ_pos _)
    have hrest : ∀ k, k < bs.length → (a + 1 + k) % 4096 ≠ c % 4096 := by
      intro k hk
      have hnext := h (k + 1) (Nat.succ_lt_succ hk)
      rwa [Nat.add_assoc, Nat.add_comm 1 k]
    rw [writeBlock_cons, ih _ _ hrest, read_write, if_neg hfirst]

/-- A block is where it was written, as long as it does not overtake itself. -/
theorem read_writeBlock (mem : Memory) (a k : Nat) (bs : List Byte)
    (hsize : bs.length ≤ 4096) (hk : k < bs.length) :
    (mem.writeBlock a bs).read (a + k) = bs[k] := by
  induction bs generalizing mem a k with
  | nil => exact absurd hk (Nat.not_lt_zero k)
  | cons b bs ih =>
    rw [writeBlock_cons]
    cases k with
    | zero =>
      have hne : ∀ j, j < bs.length → (a + 1 + j) % 4096 ≠ (a + 0) % 4096 := by
        intro j hj
        simp only [List.length_cons] at hsize
        omega
      rw [read_writeBlock_of_forall_ne _ _ _ _ hne, Nat.add_zero, read_write, if_pos rfl]
      rfl
    | succ k =>
      have hlt : k < bs.length := Nat.lt_of_succ_lt_succ hk
      have hle : bs.length ≤ 4096 := Nat.le_of_succ_le hsize
      have hadd : a + (k + 1) = a + 1 + k := by omega
      rw [hadd, ih _ _ _ hle hlt]
      rfl

end Memory
end ChipEight

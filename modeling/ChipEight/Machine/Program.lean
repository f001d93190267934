import ChipEight.Machine.Basic
import ChipEight.Machine.Error

/-!
# Programs

A program image is copied into memory as it is. Its size is looked at before its
bytes are, and where anything is wrong the memory is left untouched.
-/

namespace ChipEight

inductive Image
  /-- Integers that have yet to become bytes. -/
  | integers (values : List Int)
  | repeated (byte count : Int)
  deriving DecidableEq

namespace Image

/-- The number of bytes; less than no bytes are none. -/
def length : Image → Nat
  | integers values => values.length
  | repeated _ count => count.toNat

def values : Image → List Int
  | integers values => values
  | repeated byte count => List.replicate count.toNat byte

theorem length_values (image : Image) : image.values.length = image.length := by
  cases image with
  | integers values => rfl
  | repeated byte count => exact List.length_replicate

def fault? : Image → Option MachineError
  | integers _ => none
  | repeated byte count =>
    if byte < 0 ∨ 255 < byte then some .byteOutOfRange
    else if !Width.fits64 count then some .countTooWide
    else none

end Image

namespace Machine

def imageBytes? (image : List Int) : Option (List Byte) :=
  if image.all fun n => 0 ≤ n ∧ n < 256 then some (image.map (BitVec.ofInt 8)) else none

def overruns (size : Nat) (offset : Int) : Bool :=
  offset < 0 ∨ (Memory.size : Int) < offset + size

def load (m : Machine) (image : List Int) (offset : Int) : Except MachineError Machine :=
  if overruns image.length offset then
    .error (.programTooLarge image.length offset Memory.size)
  else
    match imageBytes? image with
    | some bytes => .ok { m with memory := m.memory.writeBlock offset.toNat bytes }
    | none => .error .byteOutOfRange

/-- An image copied into memory. It is not written out if it is too large. -/
def loadImage (m : Machine) (image : Image) (offset : Int) : Except MachineError Machine :=
  match image.fault? with
  | some e => .error e
  | none =>
    if overruns image.length offset then
      .error (.programTooLarge image.length offset Memory.size)
    else m.load image.values offset

theorem imageBytes?_toNat (bytes : List Byte) :
    imageBytes? (bytes.map fun b => (b.toNat : Int)) = some bytes := by
  have hrange : ∀ n ∈ bytes.map fun b => (b.toNat : Int), 0 ≤ n ∧ n < 256 := by
    intro n hn
    obtain ⟨b, _, rfl⟩ := List.mem_map.mp hn
    have hlt := b.isLt
    omega
  have hsame : (bytes.map fun b => (b.toNat : Int)).map (BitVec.ofInt 8) = bytes := by
    simp [Function.comp_def]
  rw [imageBytes?, if_pos, hsame]
  exact List.all_eq_true.mpr fun n hn => decide_eq_true (hrange n hn)

/-- Bytes are refused for their number only. -/
theorem load_toNat (m : Machine) (bytes : List Byte) (offset : Int) :
    m.load (bytes.map fun b => (b.toNat : Int)) offset =
      if overruns bytes.length offset then
        .error (.programTooLarge bytes.length offset Memory.size)
      else .ok { m with memory := m.memory.writeBlock offset.toNat bytes } := by
  rw [load, imageBytes?_toNat, List.length_map]

theorem loadImage_of_fault?_eq_none {m : Machine} {image : Image} {offset : Int}
    (h : image.fault? = none) : m.loadImage image offset = m.load image.values offset := by
  simp only [loadImage, h]
  by_cases hsize : overruns image.length offset
  · rw [if_pos hsize, load, image.length_values, if_pos hsize]
  · rw [if_neg hsize]

end Machine
end ChipEight

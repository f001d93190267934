import ChipEight.Instruction.Basic

/-!
# Display

32 rows of 64 pixels, each row one bit vector with the leftmost pixel as its most
significant bit. A sprite is eight pixels wide and is drawn by exclusive or; what
lies past the right or the bottom edge is dropped.
-/

namespace ChipEight

abbrev Display := Vector (BitVec 64) 32

/-- Rows of eight pixels with the place of their top left corner. -/
structure Sprite where
  x : Nat
  y : Nat
  rows : List Byte

namespace Sprite

def spread (b : Byte) (x : Nat) : BitVec 64 :=
  (BitVec.setWidth 64 b <<< (56 : Nat)) >>> x

/-- The pixels that a sprite covers in one display row. -/
def mask (s : Sprite) (row : Nat) : BitVec 64 :=
  if s.y ≤ row then
    match s.rows[row - s.y]? with
    | some b => spread b s.x
    | none => 0
  else 0

def covers (s : Sprite) (x y : Nat) : Bool :=
  if s.x ≤ x ∧ s.y ≤ y then
    match s.rows[y - s.y]? with
    | some b => b.getMsbD (x - s.x)
    | none => false
  else false

theorem getMsbD_spread (b : Byte) (x i : Nat) (hi : i < 64) :
    (spread b x).getMsbD i = (decide (x ≤ i) && b.getMsbD (i - x)) := by
  rw [spread, BitVec.getMsbD_ushiftRight, BitVec.getMsbD_shiftLeft, BitVec.getMsbD_setWidth]
  by_cases hx : x ≤ i
  · have hnot : ¬ i < x := by omega
    simp [hi, hx, hnot]
  · have hlt : i < x := by omega
    simp [hx, hlt]

theorem getMsbD_mask (s : Sprite) (x y : Nat) (hx : x < 64) :
    (s.mask y).getMsbD x = s.covers x y := by
  by_cases hy : s.y ≤ y
  · cases hrow : s.rows[y - s.y]? with
    | none => simp [mask, covers, hy, hrow]
    | some b =>
      by_cases hle : s.x ≤ x <;> simp [mask, covers, hy, hrow, getMsbD_spread, hx, hle]
  · simp [mask, covers, hy]

end Sprite

namespace Display

def width : Nat := 64

def height : Nat := 32

def blank : Display := Vector.replicate 32 0

/-- Whether the pixel in a column and row is on; nothing is on outside. -/
def isLit (d : Display) (x y : Nat) : Bool :=
  if h : y < 32 then d[y].getMsbD x else false

def draw (d : Display) (s : Sprite) : Display :=
  d.mapIdx fun y row => row ^^^ s.mask y

def collides (d : Display) (s : Sprite) : Bool :=
  (List.finRange 32).any fun y => d[y] &&& s.mask y.val != 0

/-- Drawing is exclusive or, pixel by pixel. -/
theorem isLit_draw (d : Display) (s : Sprite) (x y : Nat) (hx : x < 64) (hy : y < 32) :
    (d.draw s).isLit x y = (d.isLit x y ^^ s.covers x y) := by
  simp [isLit, hy, draw, BitVec.getMsbD_xor, Sprite.getMsbD_mask s x y hx]

theorem isLit_blank (x y : Nat) : blank.isLit x y = false := by
  by_cases hy : y < 32 <;> simp [isLit, blank, hy]

theorem collides_iff (d : Display) (s : Sprite) :
    d.collides s = true ↔
      ∃ x y, x < 64 ∧ y < 32 ∧ d.isLit x y = true ∧ s.covers x y = true := by
  constructor
  · intro h
    obtain ⟨y, _, hy⟩ := List.any_eq_true.mp h
    have hne : d[y] &&& s.mask y.val ≠ 0 := by simpa using hy
    apply Classical.byContradiction
    intro hnone
    apply hne
    apply BitVec.eq_of_getMsbD_eq
    intro x hx
    rw [BitVec.getMsbD_and, Sprite.getMsbD_mask s x y.val hx]
    cases hbit : d[y].getMsbD x with
    | false => simp
    | true =>
      cases hcov : s.covers x y.val with
      | false => simp
      | true =>
        exact absurd ⟨x, y.val, hx, y.isLt, by simpa [isLit] using hbit, hcov⟩ hnone
  · rintro ⟨x, y, hx, hy, hlit, hcov⟩
    apply List.any_eq_true.mpr
    refine ⟨⟨y, hy⟩, List.mem_finRange _, ?_⟩
    have hbit : (d[y] &&& s.mask y).getMsbD x = true := by
      have hd : d[y].getMsbD x = true := by simpa [isLit, hy] using hlit
      rw [BitVec.getMsbD_and, Sprite.getMsbD_mask s x y hx, hd, hcov]
      rfl
    have hne : d[y] &&& s.mask y ≠ 0 := by
      intro hz
      rw [hz] at hbit
      simp at hbit
    simpa using hne

end Display
end ChipEight

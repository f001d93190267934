/-!
# Surfaces

The pixels of a window, row by row, each one on or off. Painting fills a whole
surface or a rectangle of it; the part of a rectangle that lies outside is not
painted.
-/

namespace ChipEight

structure Surface where
  width : Nat
  height : Nat
  rows : Array (Array Bool)
  deriving DecidableEq

namespace Surface

def blank (width height : Nat) : Surface where
  width := width
  height := height
  rows := Array.replicate height (Array.replicate width false)

def pixel? (s : Surface) (x y : Nat) : Option Bool := do
  let row ← s.rows[y]?
  row[x]?

def clear (s : Surface) : Surface := blank s.width s.height

def paintRun (lit : Bool) (start : Nat) : Nat → Array Bool → Array Bool
  | 0, row => row
  | count + 1, row =>
    paintRun lit start count (row.setIfInBounds (start + count) lit)

/-- Pixels of one row from a column up to another, as far as the row goes. -/
def paintSpan (lit : Bool) (left right : Nat) (row : Array Bool) : Array Bool :=
  paintRun lit left (min right row.size - left) row

/-- The same pixels in several rows, from a row on. -/
def paintRows (lit : Bool) (left right top : Nat) :
    Nat → Array (Array Bool) → Array (Array Bool)
  | 0, rows => rows
  | count + 1, rows =>
    paintRows lit left right top count
      (rows.modify (top + count) (paintSpan lit left right))

/-- The rectangle with the given corner and size, as far as it is on the surface. -/
def fillRectangle (s : Surface) (x y : Int) (width height : Nat) (lit : Bool) : Surface :=
  let left := x.toNat
  let right := (x + (width : Int)).toNat
  let top := y.toNat
  let bottom := (y + (height : Int)).toNat
  { s with rows := paintRows lit left right top (min bottom s.rows.size - top) s.rows }

def values (s : Surface) : List Bool :=
  [false, true].filter fun lit => s.rows.any fun row => row.contains lit

theorem getElem?_paintRun (lit : Bool) (start count : Nat) (row : Array Bool) (i : Nat) :
    (paintRun lit start count row)[i]? =
      row[i]?.map fun old => if start ≤ i ∧ i < start + count then lit else old := by
  induction count generalizing row with
  | zero =>
    have h : ¬(start ≤ i ∧ i < start + 0) := by omega
    simp only [paintRun, if_neg h, Option.map_id_fun', id]
  | succ count ih =>
    rw [paintRun, ih, Array.getElem?_setIfInBounds]
    by_cases hi : start + count = i
    · subst hi
      have hend : start ≤ start + count ∧ start + count < start + (count + 1) := by omega
      by_cases hlt : start + count < row.size
      · simp [hlt, hend]
      · simp [hlt]
    · have hiff : (start ≤ i ∧ i < start + count) ↔ (start ≤ i ∧ i < start + (count + 1)) := by
        omega
      simp only [if_neg hi, hiff]

theorem getElem?_paintSpan (lit : Bool) (left right : Nat) (row : Array Bool) (i : Nat) :
    (paintSpan lit left right row)[i]? =
      row[i]?.map fun old => if left ≤ i ∧ i < right then lit else old := by
  rw [paintSpan, getElem?_paintRun]
  by_cases hi : i < row.size
  · have hiff : (left ≤ i ∧ i < left + (min right row.size - left)) ↔
        (left ≤ i ∧ i < right) := by omega
    simp only [hiff]
  · simp [hi]

theorem getElem?_paintRows (lit : Bool) (left right top count : Nat)
    (rows : Array (Array Bool)) (j : Nat) :
    (paintRows lit left right top count rows)[j]? =
      rows[j]?.map fun row =>
        if top ≤ j ∧ j < top + count then paintSpan lit left right row else row := by
  induction count generalizing rows with
  | zero =>
    have h : ¬(top ≤ j ∧ j < top + 0) := by omega
    simp only [paintRows, if_neg h, Option.map_id_fun', id]
  | succ count ih =>
    rw [paintRows, ih, Array.getElem?_modify]
    by_cases hj : top + count = j
    · subst hj
      have hstart : ¬(top ≤ top + count ∧ top + count < top + count) := by omega
      have hend : top ≤ top + count ∧ top + count < top + (count + 1) := by omega
      simp only [if_neg hstart, if_pos hend, Option.map_id_fun', id, if_true]
    · have hiff : (top ≤ j ∧ j < top + count) ↔ (top ≤ j ∧ j < top + (count + 1)) := by
        omega
      simp only [if_neg hj, hiff]

theorem pixel?_blank (width height x y : Nat) :
    (blank width height).pixel? x y =
      if x < width ∧ y < height then some false else none := by
  by_cases hy : y < height
  · by_cases hx : x < width <;> simp [blank, pixel?, hx, hy]
  · simp [blank, pixel?, hy]

/-- A filled rectangle changes the pixels in it and no others. -/
theorem pixel?_fillRectangle (s : Surface) (x y : Int) (width height : Nat) (lit : Bool)
    (i j : Nat) :
    (s.fillRectangle x y width height lit).pixel? i j =
      (s.pixel? i j).map fun old =>
        if (x ≤ i ∧ i < x + width) ∧ (y ≤ j ∧ j < y + height) then lit else old := by
  have hx : (x.toNat ≤ i ∧ i < (x + (width : Int)).toNat) ↔
      (x ≤ (i : Int) ∧ (i : Int) < x + (width : Int)) := by omega
  simp only [fillRectangle, pixel?, getElem?_paintRows]
  by_cases hsize : j < s.rows.size
  · have hy : (y.toNat ≤ j ∧
        j < y.toNat + (min (y + (height : Int)).toNat s.rows.size - y.toNat)) ↔
        (y ≤ (j : Int) ∧ (j : Int) < y + (height : Int)) := by omega
    simp only [hy]
    cases s.rows[j]? with
    | none => rfl
    | some row =>
      by_cases hj : y ≤ (j : Int) ∧ (j : Int) < y + (height : Int)
      · simp only [Option.map_some, Option.bind_eq_bind, Option.bind_some, hj, and_self,
          if_true, getElem?_paintSpan, hx, and_true]
      · simp only [Option.map_some, Option.bind_eq_bind, Option.bind_some, hj, and_false,
          if_false, Option.map_id_fun', id]
  · simp [hsize]

end Surface
end ChipEight

import ChipEight.Numeric.Width
import ChipEight.Window.Surface

/-!
# Canvases

Painting on a surface comes down to two things, clearing it and filling a square of
it. The canvas of the program keeps the low 32 bits of the numbers that it is given.
-/

namespace ChipEight

/-- The ways in which a surface is painted. A square is given by its corner and its
side. -/
structure Canvas where
  clear : Surface → Surface
  square : (x y side : Int) → (lit : Bool) → Surface → Surface

namespace Canvas

/-- The canvas that the program paints on. A square with a negative side is not
seen. -/
def standard : Canvas where
  clear := Surface.clear
  square x y side lit s :=
    s.fillRectangle (Width.low32 x) (Width.low32 y) (Width.low32 side).toNat
      (Width.low32 side).toNat lit

theorem square_standard_of_small {x y side : Int} (lit : Bool) (s : Surface)
    (hx : 0 ≤ x ∧ x < 0x80000000) (hy : 0 ≤ y ∧ y < 0x80000000)
    (hside : 0 ≤ side ∧ side < 0x80000000) :
    standard.square x y side lit s = s.fillRectangle x y side.toNat side.toNat lit := by
  have hlow := Width.low32_of_small (n := x) (by omega) hx.2
  have hlow' := Width.low32_of_small (n := y) (by omega) hy.2
  have hlow'' := Width.low32_of_small (n := side) (by omega) hside.2
  simp only [standard, hlow, hlow', hlow'']

end Canvas
end ChipEight

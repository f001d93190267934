/-!
# Integer widths

Places in a row and the pixels of a window are numbered by integers of limited
width. A number that needs more than 64 bits is refused; where less is kept, it is
the low 32 bits.
-/

namespace ChipEight
namespace Width

/-- Whether 64 bits, one of them for the sign, hold a number. -/
def fits64 (n : Int) : Bool := -0x8000000000000000 ≤ n ∧ n ≤ 0x7FFFFFFFFFFFFFFF

/-- The low 32 bits of a number, read with a sign. -/
def low32 (n : Int) : Int := n.bmod 0x100000000

theorem fits64_of_small {n : Int} (hlow : -0x80000000 ≤ n) (hhigh : n < 0x80000000) :
    fits64 n = true := by
  have h : -0x8000000000000000 ≤ n ∧ n ≤ 0x7FFFFFFFFFFFFFFF := by omega
  simp [fits64, h]

theorem low32_of_small {n : Int} (hlow : -0x80000000 ≤ n) (hhigh : n < 0x80000000) :
    low32 n = n :=
  Int.bmod_eq_of_le (by omega) (by omega)

end Width
end ChipEight

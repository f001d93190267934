import ChipEight.Machine.Error

/-!
# Places

The places of a row are numbered from zero on. A negative number counts from the
end: minus one is the last place.
-/

namespace ChipEight
namespace Machine

def place? (access : Access) (length : Nat) (n : Int) : Except MachineError Nat :=
  if !Width.fits64 n then .error .indexTooWide
  else
    let k := if n < 0 then n + length else n
    if 0 ≤ k ∧ k < length then .ok k.toNat else .error (.outOfRange access)

def register? (access : Access) (n : Int) : Except MachineError Register :=
  (place? access 16 n).map (Fin.ofNat 16)

theorem place?_natCast (access : Access) {length n : Nat} (h : n < length)
    (hsmall : length ≤ 0x7FFFFFFFFFFFFFFF) : place? access length n = .ok n := by
  have hfits : Width.fits64 (n : Int) = true := by
    have hbounds : -0x8000000000000000 ≤ (n : Int) ∧ (n : Int) ≤ 0x7FFFFFFFFFFFFFFF := by omega
    simp [Width.fits64, hbounds]
  have hneg : ¬(n : Int) < 0 := by omega
  have hlt : 0 ≤ (n : Int) ∧ (n : Int) < length := by omega
  simp only [place?, hfits, Bool.not_true, Bool.false_eq_true, if_false, if_neg hneg,
    if_pos hlt, Int.toNat_natCast]

theorem register?_val (access : Access) (x : Register) :
    register? access (x.val : Int) = .ok x := by
  rw [register?, place?_natCast access x.isLt (by decide), Except.map]
  simp [Fin.ofNat, Nat.mod_eq_of_lt x.isLt]

end Machine
end ChipEight

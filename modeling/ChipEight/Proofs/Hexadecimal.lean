import ChipEight.Numeric.Hex
import Mathlib.Algebra.Group.Nat.Defs
import Mathlib.Data.List.TakeWhile

/-!
# Reading hexadecimal text

The number that a text of hexadecimal digits stands for. A number is read back from its
digits, also behind a minus sign and when zeros or blanks stand in front, so different
numbers never look the same.
-/

namespace ChipEight
namespace Hex

def isDigit (c : Char) : Bool := (digitValue? c).isSome

/-- The number that digits stand for, the most significant one first. -/
def value (text : List Char) : Nat :=
  text.foldl (fun n c => 16 * n + (digitValue? c).getD 0) 0

theorem digitValue?_upperDigit {d : Nat} (hd : d < 16) : digitValue? (upperDigit d) = some d := by
  have hall : ∀ d : Fin 16, digitValue? (upperDigit d) = some d.val := by decide
  exact hall ⟨d, hd⟩

theorem value_append_singleton (text : List Char) (c : Char) :
    value (text ++ [c]) = 16 * value text + (digitValue? c).getD 0 := by
  rw [value, List.foldl_append]
  rfl

theorem value_digits (n : Nat) : value (digits n) = n := by
  induction n using digits.induct with
  | case1 n hsmall =>
    rw [digits_of_lt hsmall, value, List.foldl_cons, List.foldl_nil, digitValue?_upperDigit hsmall]
    simp
  | case2 n hlarge ih =>
    have hd : n % 16 < 16 := Nat.mod_lt n (by decide)
    rw [digits_of_ge (Nat.le_of_not_lt hlarge), value_append_singleton, ih,
      digitValue?_upperDigit hd]
    exact Nat.div_add_mod n 16

theorem value_fill (width : Nat) (text : List Char) : value (fill '0' width text) = value text := by
  have hzeros : ∀ k, (List.replicate k '0').foldl
      (fun n c => 16 * n + (digitValue? c).getD 0) 0 = 0 := by
    intro k
    induction k with
    | zero => rfl
    | succ k ih => exact ih
  rw [value, fill, List.foldl_append, hzeros]
  rfl

theorem isDigit_of_mem_digits {n : Nat} {c : Char} (h : c ∈ digits n) : isDigit c = true := by
  induction n using digits.induct with
  | case1 n hsmall =>
    rw [digits_of_lt hsmall, List.mem_singleton] at h
    rw [h, isDigit, digitValue?_upperDigit hsmall]
    rfl
  | case2 n hlarge ih =>
    rw [digits_of_ge (Nat.le_of_not_lt hlarge), List.mem_append, List.mem_singleton] at h
    rcases h with hfront | rfl
    · exact ih hfront
    · rw [isDigit, digitValue?_upperDigit (Nat.mod_lt n (by decide))]
      rfl

theorem isDigit_of_mem_fill {width : Nat} {text : List Char} {c : Char}
    (h : c ∈ fill '0' width text) (htext : ∀ c ∈ text, isDigit c = true) : isDigit c = true := by
  rcases List.mem_append.mp h with hzero | hrest
  · rw [(List.mem_replicate.mp hzero).2]
    decide
  · exact htext c hrest

/-- A number has as many digits as it takes to be smaller than a power of sixteen. -/
theorem length_digits_le {n k : Nat} (h : n < 16 ^ (k + 1)) : (digits n).length ≤ k + 1 := by
  induction k generalizing n with
  | zero => exact Nat.le_of_eq (congrArg List.length (digits_of_lt h))
  | succ k ih =>
    by_cases hsmall : n < 16
    · rw [digits_of_lt hsmall]
      exact Nat.le_add_left 1 (k + 1)
    · have hdiv : n / 16 < 16 ^ (k + 1) :=
        Nat.div_lt_of_lt_mul (by rwa [← Nat.pow_succ'])
      rw [digits_of_ge (Nat.le_of_not_lt hsmall), List.length_append]
      exact Nat.add_le_add_right (ih hdiv) 1

theorem length_fill_digits {n k : Nat} (h : n < 16 ^ (k + 1)) :
    (fill '0' (k + 1) (digits n)).length = k + 1 := by
  rw [length_fill, Nat.max_eq_left (length_digits_le h)]

/-! ### Signed numbers -/

/-- The number that digits stand for, below zero behind a minus sign. -/
def signedValue : List Char → Int
  | '-' :: text => -(value text : Int)
  | text => value text

theorem signedValue_of_isDigit {text : List Char} (h : ∀ c ∈ text, isDigit c = true) :
    signedValue text = value text := by
  unfold signedValue
  split
  · cases h '-' List.mem_cons_self
  · rfl

theorem signedValue_zeroFilled (width : Nat) (n : Int) : signedValue (zeroFilled width n) = n := by
  cases n with
  | ofNat n =>
    have hdigits : ∀ c ∈ fill '0' width (digits n), isDigit c = true :=
      fun c hc => isDigit_of_mem_fill hc fun _ => isDigit_of_mem_digits
    rw [zeroFilled, signedValue_of_isDigit hdigits, value_fill, value_digits]
    rfl
  | negSucc n =>
    rw [zeroFilled, signedValue, value_fill, value_digits]
    rfl

/-- Zero-filled numbers that look the same are the same. -/
theorem padded_injective (width : Nat) : Function.Injective (padded width) := by
  intro a b h
  have htext : zeroFilled width a = zeroFilled width b := String.ofList_injective h
  rw [← signedValue_zeroFilled width a, htext, signedValue_zeroFilled]

theorem signedDigits_eq (n : Int) : signedDigits n = zeroFilled 0 n := by
  cases n <;> simp [signedDigits, zeroFilled, fill]

theorem notMem_zeroFilled {c : Char} (hdigit : isDigit c = false) (hminus : c ≠ '-')
    (width : Nat) (n : Int) : c ∉ zeroFilled width n := by
  have hfill : ∀ width n : Nat, c ∉ fill '0' width (digits n) := by
    intro width n hc
    rw [isDigit_of_mem_fill hc fun _ => isDigit_of_mem_digits] at hdigit
    cases hdigit
  cases n with
  | ofNat n => exact hfill width n
  | negSucc n => exact List.not_mem_cons_of_ne_of_not_mem hminus (hfill (width - 1) (n + 1))

theorem notMem_spaced {c : Char} (hdigit : isDigit c = false) (hminus : c ≠ '-') (hblank : c ≠ ' ')
    (width : Nat) (n : Int) : c ∉ (spaced width n).toList := by
  rw [spaced, String.toList_ofList, fill, List.mem_append]
  rintro (hfront | hdigits)
  · exact hblank (List.mem_replicate.mp hfront).2
  · exact notMem_zeroFilled hdigit hminus 0 n (signedDigits_eq n ▸ hdigits)

theorem spaced_injective (width : Nat) : Function.Injective (spaced width) := by
  have hstrip : ∀ n, ((spaced width n).toList).dropWhile (· = ' ') = zeroFilled 0 n := by
    intro n
    have hblanks : ∀ c ∈ List.replicate (width - (signedDigits n).length) ' ', decide (c = ' ') :=
      fun c hc => decide_eq_true (List.mem_replicate.mp hc).2
    rw [spaced, String.toList_ofList, fill, List.dropWhile_append_of_pos hblanks, signedDigits_eq]
    apply List.dropWhile_eq_self_iff.mpr
    intro hpos hfirst
    have hmem : ' ' ∈ zeroFilled 0 n := of_decide_eq_true hfirst ▸ List.getElem_mem hpos
    exact notMem_zeroFilled (by decide) (by decide) 0 n hmem
  intro a b h
  rw [← signedValue_zeroFilled 0 a, ← hstrip, h, hstrip, signedValue_zeroFilled]

theorem length_spaced {n k : Nat} (h : n < 16 ^ (k + 1)) :
    (spaced (k + 1) n).toList.length = k + 1 := by
  rw [spaced, String.toList_ofList, length_fill]
  exact Nat.max_eq_left (length_digits_le h)

theorem plain_injective : Function.Injective plain := by
  intro a b h
  rw [← value_digits a, String.ofList_injective h, value_digits]

end Hex
end ChipEight

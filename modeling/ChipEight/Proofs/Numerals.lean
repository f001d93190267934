import ChipEight.Text.Numeral
import Mathlib.Data.List.TakeWhile
import Mathlib.Data.Nat.Digits.Defs

/-!
# Numerals

An integer written in decimal is a sign, which may be left out, with digits of any script
behind it. Reading such a numeral gives the integer back, and one with a minus sign is told
from an option.
-/

namespace ChipEight
namespace Text

/-- Digits that write a natural number. -/
structure IsDecimal (text : List Char) (n : Nat) : Prop where
  ne_nil : text ≠ []
  length_le : text.length ≤ 4300
  digits : ∀ c ∈ text, isDigit c = true
  value_eq : n = Nat.ofDigits 10 (text.reverse.map fun c => (digitValue? c).getD 0)

/-- Texts that write an integer in decimal. -/
inductive Numeral : List Char → Int → Prop
  | unsigned {text : List Char} {n : Nat} : IsDecimal text n → Numeral text n
  | plus {text : List Char} {n : Nat} : IsDecimal text n → Numeral ('+' :: text) n
  | minus {text : List Char} {n : Nat} : IsDecimal text n → Numeral ('-' :: text) (-n)

theorem natOfDigits_eq (ds : List Nat) : natOfDigits ds = Nat.ofDigits 10 ds.reverse := by
  rw [Nat.ofDigits_eq_foldr, List.foldr_reverse, natOfDigits]
  congr
  funext n d
  exact Nat.add_comm (10 * n) d

theorem groupedDigits?_of_isDigit {text : List Char} (hne : text ≠ [])
    (h : ∀ c ∈ text, isDigit c = true) :
    groupedDigits? text = some (text.map fun c => (digitValue? c).getD 0) := by
  have hdigit : ∀ c ∈ text, digitValue? c = some ((digitValue? c).getD 0) := by
    intro c hc
    obtain ⟨d, hd⟩ := Option.isSome_iff_exists.mp (h c hc)
    rw [hd, Option.getD_some]
  fun_induction groupedDigits? text with
  | case1 => contradiction
  | case2 c =>
    rw [hdigit c List.mem_cons_self]
    rfl
  | case3 c rest ih => cases h '_' (List.mem_cons_of_mem c List.mem_cons_self)
  | case4 c rest hrest hlow ih =>
    have hlater : ∀ c' ∈ rest, c' ∈ c :: rest := fun c' hc' => List.mem_cons_of_mem c hc'
    rw [hdigit c List.mem_cons_self, ih hrest (fun c' hc' => h c' (hlater c' hc'))
      (fun c' hc' => hdigit c' (hlater c' hc'))]
    rfl

theorem magnitude?_of_isDecimal {text : List Char} {n : Nat} (h : IsDecimal text n) :
    magnitude? text = some n := by
  have hlength : text.length ≤ maximalDigits := h.length_le
  simp only [magnitude?, groupedDigits?_of_isDigit h.ne_nil h.digits, bind, Option.bind,
    List.length_map, if_pos hlength, natOfDigits_eq, ← List.map_reverse, ← h.value_eq]

theorem isBlank_of_isDigit {c : Char} (h : isDigit c = true) : isBlank c = false := by
  have hdigits : ∀ first ∈ digitZeros, ∀ k < 10, isBlank (Char.ofNat (first + k)) = false := by
    decide +kernel
  obtain ⟨first, hfirst⟩ : ∃ first,
      digitZeros.find? (fun first => first ≤ c.toNat ∧ c.toNat ≤ first + 9) = some first := by
    simpa [isDigit, digitValue?, Option.isSome_iff_exists] using h
  have hspan : first ≤ c.toNat ∧ c.toNat ≤ first + 9 := by
    simpa using List.find?_some hfirst
  have hcode : Char.ofNat (first + (c.toNat - first)) = c := by
    rw [Nat.add_sub_cancel' hspan.1, Char.ofNat_toNat]
  rw [← hcode]
  exact hdigits first (List.mem_of_find?_eq_some hfirst) _ (by omega)

theorem stripBlanks_of_forall {text : List Char} (h : ∀ c ∈ text, isBlank c = false) :
    stripBlanks text = text := by
  have hkept : ∀ {text : List Char}, (∀ c ∈ text, isBlank c = false) →
      text.dropWhile isBlank = text := by
    intro text h
    cases text with
    | nil => rfl
    | cons c rest => rw [List.dropWhile_cons, h c List.mem_cons_self]; rfl
  rw [stripBlanks, hkept h, hkept fun c hc => h c (List.mem_reverse.mp hc), List.reverse_reverse]

namespace Numeral

variable {text : List Char} {n : Int}

/-- A numeral has digits behind its sign and nothing else. -/
theorem eq_or_isDigit_of_mem (h : Numeral text n) {c : Char} (hc : c ∈ text) :
    c = '+' ∨ c = '-' ∨ isDigit c = true := by
  cases h with
  | unsigned h => exact .inr (.inr (h.digits c hc))
  | plus h => exact (List.mem_cons.mp hc).imp_right fun hc => .inr (h.digits c hc)
  | minus h => exact .inr ((List.mem_cons.mp hc).imp_right (h.digits c))

theorem ne_nil (h : Numeral text n) : text ≠ [] := by
  cases h with
  | unsigned h => exact h.ne_nil
  | plus | minus => exact List.cons_ne_nil _ _

end Numeral

theorem integer?_of_numeral {s : String} {n : Int} (h : Numeral s.toList n) :
    integer? s = some n := by
  have hblanks : ∀ c ∈ s.toList, isBlank c = false := by
    intro c hc
    rcases h.eq_or_isDigit_of_mem hc with rfl | rfl | hdigit
    · rfl
    · rfl
    · exact isBlank_of_isDigit hdigit
  rw [integer?, stripBlanks_of_forall hblanks]
  generalize s.toList = text at h
  cases h with
  | plus h | minus h =>
    simp only [magnitude?_of_isDecimal h]
    rfl
  | unsigned h =>
    -- the first character is a digit, so it is neither of the signs
    split
    · cases h.digits '-' List.mem_cons_self
    · cases h.digits '+' List.mem_cons_self
    · rw [magnitude?_of_isDecimal h]
      rfl

theorem looksNegative_of_isDecimal {s : String} {text : List Char} {n : Nat}
    (hs : s.toList = '-' :: text) (h : IsDecimal text n) : looksNegative s = true := by
  have hbreak : text.getLast? ≠ some '\n' := by
    intro hlast
    cases h.digits '\n' (List.mem_of_getLast? hlast)
  have htake : text.takeWhile isDigit = text := List.takeWhile_eq_self_iff.mpr h.digits
  have hdrop : text.dropWhile isDigit = [] := List.dropWhile_eq_nil_iff.mpr h.digits
  simp only [looksNegative, hs, if_neg hbreak, htake, hdrop]
  simpa using h.ne_nil

end Text
end ChipEight

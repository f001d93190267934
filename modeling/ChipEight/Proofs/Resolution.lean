import ChipEight.Machine.Call
import Mathlib.Data.List.Basic

/-!
# Resolving calls

What a call by its mnemonic comes to before anything is done. Exactly the mnemonics of the
instructions are known; of a known one with the right number of operands, only the numbers
of registers can be wrong.
-/

namespace ChipEight

namespace Instruction

/-- One instruction for each mnemonic. -/
def samples : List Instruction := [
  clear, ret, sys 0, jump 0, call 0, skipEqByte 0 0, skipNeByte 0 0, skipEqReg 0 0,
  loadByte 0 0, addByte 0 0, copy 0 0, or 0 0, and 0 0, xor 0 0, addReg 0 0, sub 0 0,
  shiftRight 0 0, subFrom 0 0, shiftLeft 0 0, skipNeReg 0 0, loadIndex 0, jumpOffset 0,
  random 0 0, draw 0 0 0, skipPressed 0, skipReleased 0, readDelay 0, waitKey 0, setDelay 0,
  setSound 0, addIndex 0, glyph 0, decimal 0, store 0, load 0]

theorem ofMnemonic?_eq_none_iff (name : String) :
    Signature.ofMnemonic? name = none ↔ ∀ i : Instruction, i.mnemonic ≠ name := by
  constructor
  · rintro hnone i rfl
    cases i <;> cases hnone
  · intro hother
    have hsample : ∀ i ∈ samples, i.mnemonic ≠ name := fun i _ => hother i
    simp only [samples, List.forall_mem_cons, mnemonic] at hsample
    unfold Signature.ofMnemonic?
    split <;> simp_all

theorem exists_mnemonic {name : String} {s : Signature}
    (h : Signature.ofMnemonic? name = some s) : ∃ i : Instruction, i.mnemonic = name := by
  by_contra hnone
  rw [(ofMnemonic?_eq_none_iff name).mpr (not_exists.mp hnone)] at h
  cases h

end Instruction

def MachineError.isPlace : MachineError → Bool
  | outOfRange _ => true
  | indexTooWide => true
  | _ => false

namespace Call

open Machine (place? register?)

theorem isPlace_of_place? {access : Access} {length : Nat} {n : Int} {e : MachineError}
    (h : place? access length n = .error e) : e.isPlace = true := by
  unfold place? at h
  dsimp only at h
  split_ifs at h <;> cases h <;> rfl

theorem isPlace_of_register? {access : Access} {n : Int} {e : MachineError}
    (h : register? access n = .error e) : e.isPlace = true := by
  unfold register? at h
  cases hplace : place? access 16 n with
  | ok k => rw [hplace] at h; cases h
  | error e' =>
    rw [hplace] at h
    cases h
    exact isPlace_of_place? hplace

/-- What comes of looking up the registers of a call: an error about the number of one, or
a call that has a register for what it asks for. -/
def Resolves : Except MachineError Call → Prop
  | .ok c => ∀ e, c ≠ .randomInVain e
  | .error e => e.isPlace = true

theorem resolves_instruction (i : Instruction) : Resolves (.ok (.instruction i)) := by
  rintro e ⟨⟩

theorem resolves_bind {access : Access} {x : Int} {f : Register → Except MachineError Call}
    (h : ∀ a, Resolves (f a)) : Resolves (register? access x >>= f) := by
  cases hx : register? access x with
  | ok a => exact h a
  | error e => exact isPlace_of_register? hx

theorem resolves_single (access : Access) (make : Register → Instruction) (x : Int) :
    Resolves (single access make x) := by
  apply resolves_bind
  intro a
  exact resolves_instruction _

theorem resolves_pair (make : Register → Register → Instruction) (x y : Int) :
    Resolves (pair make x y) := by
  apply resolves_bind
  intro a
  apply resolves_bind
  intro b
  exact resolves_instruction _

theorem resolves_pairBackwards (make : Register → Register → Instruction) (x y : Int) :
    Resolves (pairBackwards make x y) := by
  apply resolves_bind
  intro b
  apply resolves_bind
  intro a
  exact resolves_instruction _

theorem resolves_copying (x y : Int) : Resolves (copying x y) := by
  apply resolves_bind
  intro b
  apply resolves_bind
  intro a
  exact resolves_instruction _

theorem resolves_comparison (equal : Bool) (x value : Int) :
    Resolves (comparison equal x value) := by
  apply resolves_bind
  rintro a e ⟨⟩

theorem resolves_drawing (x y rows : Int) : Resolves (drawing x y rows) := by
  apply resolves_bind
  intro a
  apply resolves_bind
  rintro b e ⟨⟩

/-- A known mnemonic with the right number of operands resolves, unless it asks for a random
number, which is asked for before its register is looked up. -/
theorem resolves_ofFitting {i : Instruction} {s : Signature} {operands : List Int}
    (hs : Signature.ofMnemonic? i.mnemonic = some s) (hfit : s.accepts operands = true) :
    Resolves (ofFitting i.mnemonic operands) ∨
      i.mnemonic = "RND" ∧ ∃ x mask, ofFitting i.mnemonic operands = .ok (rolling x mask) := by
  have hlength : operands.length = s.parameters.length := of_decide_eq_true hfit
  cases i with
  | clear | ret =>
    cases hs
    cases List.length_eq_zero_iff.mp hlength
    exact Or.inl (resolves_instruction _)
  | sys _ | jump _ | call _ | jumpOffset _ =>
    cases hs
    obtain ⟨a, rfl⟩ := List.length_eq_one_iff.mp hlength
    exact Or.inl (resolves_instruction _)
  | loadIndex _ | waitKey _ | store _ | load _ =>
    cases hs
    obtain ⟨x, rfl⟩ := List.length_eq_one_iff.mp hlength
    exact Or.inl (by rintro e ⟨⟩)
  | skipPressed _ | skipReleased _ | readDelay _ | setDelay _ | setSound _ | addIndex _
  | glyph _ | decimal _ =>
    cases hs
    obtain ⟨x, rfl⟩ := List.length_eq_one_iff.mp hlength
    exact Or.inl (resolves_single _ _ x)
  | loadByte _ _ | addByte _ _ | shiftRight _ _ | shiftLeft _ _ =>
    cases hs
    obtain ⟨x, y, rfl⟩ := List.length_eq_two.mp hlength
    exact Or.inl (resolves_single _ _ x)
  | skipEqReg _ _ | skipNeReg _ _ | or _ _ | and _ _ | xor _ _ | addReg _ _ =>
    cases hs
    obtain ⟨x, y, rfl⟩ := List.length_eq_two.mp hlength
    exact Or.inl (resolves_pair _ x y)
  | sub _ _ | subFrom _ _ =>
    cases hs
    obtain ⟨x, y, rfl⟩ := List.length_eq_two.mp hlength
    exact Or.inl (resolves_pairBackwards _ x y)
  | skipEqByte _ _ | skipNeByte _ _ =>
    cases hs
    obtain ⟨x, y, rfl⟩ := List.length_eq_two.mp hlength
    exact Or.inl (resolves_comparison _ x y)
  | copy _ _ =>
    cases hs
    obtain ⟨x, y, rfl⟩ := List.length_eq_two.mp hlength
    exact Or.inl (resolves_copying x y)
  | random _ _ =>
    cases hs
    obtain ⟨x, y, rfl⟩ := List.length_eq_two.mp hlength
    exact Or.inr ⟨rfl, x, _, rfl⟩
  | draw _ _ _ =>
    cases hs
    obtain ⟨x, y, n, rfl⟩ := List.length_eq_three.mp hlength
    exact Or.inl (resolves_drawing x y n)

end Call

end ChipEight

import ChipEight.Proofs.Footprint
import Mathlib.Tactic.SplitIfs

/-!
# Register arithmetic

The operands of an arithmetic instruction are read before anything is written, and the flag
is written last. So the flag is exact even where the flag register is an operand or the
target, and everywhere else the result and the flag together lose nothing of the numbers.
-/

namespace ChipEight

namespace Byte

theorem carry_add (a b : Byte) :
    256 * (decide (255 < a.toNat + b.toNat)).toNat + (a + b).toNat = a.toNat + b.toNat := by
  have ha := a.isLt
  have hb := b.isLt
  rw [BitVec.toNat_add]
  by_cases hcarry : 255 < a.toNat + b.toNat
  · rw [decide_eq_true hcarry, Bool.toNat_true]
    omega
  · rw [decide_eq_false hcarry, Bool.toNat_false]
    omega

/-- A difference falls short by what has been borrowed. -/
theorem sub_borrow (a b : Byte) :
    (a - b).toNat + b.toNat = a.toNat + 256 * (decide (a.toNat < b.toNat)).toNat := by
  have ha := a.isLt
  have hb := b.isLt
  rw [BitVec.toNat_sub]
  by_cases hborrow : a.toNat < b.toNat
  · rw [decide_eq_true hborrow, Bool.toNat_true]
    omega
  · rw [decide_eq_false hborrow, Bool.toNat_false]
    omega

theorem toNat_getLsbD (a : Byte) (k : Nat) : (a.getLsbD k).toNat = a.toNat >>> k % 2 := by
  rw [BitVec.getLsbD, Nat.toNat_testBit, Nat.shiftRight_eq_div_pow]

/-- A number is twice its half and the bit that is shifted out. -/
theorem shiftRight_bit (a : Byte) : 2 * (a >>> 1).toNat + (a.getLsbD 0).toNat = a.toNat := by
  rw [toNat_getLsbD, BitVec.toNat_ushiftRight, Nat.shiftRight_zero, Nat.shiftRight_eq_div_pow]
  omega

/-- Twice a number is its low eight bits and the bit that is shifted out. -/
theorem shiftLeft_bit (a : Byte) :
    256 * (a.getLsbD 7).toNat + (a <<< 1).toNat = 2 * a.toNat := by
  have ha := a.isLt
  rw [toNat_getLsbD, BitVec.toNat_shiftLeft, Nat.shiftLeft_eq, Nat.shiftRight_eq_div_pow]
  omega

end Byte

namespace Machine

section Aliasing

variable {m : Machine} {word : Int} {i : Instruction} {x : Register} {result : Byte}

theorem register_executeWord (h : Instruction.ofInt? word = some i) (z : Register) :
    (m.executeWord word).register z = (m.perform i).register z := by
  rw [executeWord_eq, h]
  rfl

/-- The flag is written after the result, so it is there even if the result went to the same
register. -/
theorem flag_of_flagged (h : Instruction.ofInt? word = some i) {flag : Bool}
    (hi : m.perform i = ((m.setRegister x result).setFlag flag).advance) :
    ((m.executeWord word).register flagRegister).toNat = flag.toNat := by
  rw [register_executeWord h, hi]
  change (((m.setRegister x result).setFlag flag).register flagRegister).toNat = _
  rw [flag_setFlag]
  cases flag <;> rfl

theorem register_of_flagged (h : Instruction.ofInt? word = some i) {flag : Bool}
    (hi : m.perform i = ((m.setRegister x result).setFlag flag).advance) {z : Register}
    (hz : z ≠ flagRegister) :
    (m.executeWord word).register z = if x = z then result else m.register z := by
  rw [register_executeWord h, hi]
  exact ((m.setRegister x result).register_setFlag flag hz).trans
    (m.register_setRegister x z result)

theorem register_of_plain (h : Instruction.ofInt? word = some i)
    (hi : m.perform i = (m.setRegister x result).advance) (z : Register) :
    (m.executeWord word).register z = if x = z then result else m.register z := by
  rw [register_executeWord h, hi]
  exact m.register_setRegister x z result

theorem law_of_flagged (h : Instruction.ofInt? word = some i) {flag : Bool}
    (hi : m.perform i = ((m.setRegister x result).setFlag flag).advance)
    {law : Nat → Nat → Prop} (hlaw : law result.toNat flag.toNat) :
    ((m.executeWord word).register flagRegister).toNat = flag.toNat ∧
      (x ≠ flagRegister → law ((m.executeWord word).register x).toNat
        ((m.executeWord word).register flagRegister).toNat) := by
  refine ⟨flag_of_flagged h hi, ?_⟩
  intro hx
  rw [flag_of_flagged h hi, register_of_flagged h hi hx, if_pos rfl]
  exact hlaw

theorem result_of_plain (h : Instruction.ofInt? word = some i)
    (hi : m.perform i = (m.setRegister x result).advance) {number : Nat}
    (hnumber : result.toNat = number) :
    ((m.executeWord word).register x).toNat = number ∧
      (x ≠ flagRegister →
        (m.executeWord word).register flagRegister = m.register flagRegister) := by
  constructor
  · rw [register_of_plain h hi, if_pos rfl]
    exact hnumber
  · intro hx
    rw [register_of_plain h hi, if_neg hx]

end Aliasing

/-- The instructions that set the flag, with the flag that they set and with what their
result and this flag make up, all from the numbers in two registers. -/
def flagLaws (m : Machine) (x y : Register) : List (Instruction × Bool × (Nat → Nat → Prop)) :=
  let a := (m.register x).toNat
  let b := (m.register y).toNat
  [(.addReg x y, decide (255 < a + b), fun result flag => 256 * flag + result = a + b),
    (.sub x y, decide (b < a), fun result _ => result + b = a + 256 * (decide (a < b)).toNat),
    (.subFrom x y, decide (a < b), fun result _ => result + a = b + 256 * (decide (b < a)).toNat),
    (.shiftRight x y, a.testBit 0, fun result flag => 2 * result + flag = a),
    (.shiftLeft x y, a.testBit 7, fun result flag => 256 * flag + result = 2 * a)]

def plainResults (m : Machine) (x y : Register) (byte : Byte) : List (Instruction × Nat) :=
  let a := (m.register x).toNat
  let b := (m.register y).toNat
  [(.addByte x byte, (a + byte.toNat) % 256), (.or x y, a ||| b), (.and x y, a &&& b),
    (.xor x y, a ^^^ b), (.copy x y, b)]

section Laws

variable {m : Machine} {x y : Register} {i : Instruction} {word : Int}

theorem law_of_mem_flagLaws {flag : Bool} {law : Nat → Nat → Prop}
    (hlaw : (i, flag, law) ∈ m.flagLaws x y) (h : Instruction.ofInt? word = some i) :
    ((m.executeWord word).register flagRegister).toNat = flag.toNat ∧
      (x ≠ flagRegister → law ((m.executeWord word).register x).toNat
        ((m.executeWord word).register flagRegister).toNat) := by
  simp only [flagLaws, List.mem_cons, Prod.mk.injEq, List.not_mem_nil, or_false] at hlaw
  rcases hlaw with ⟨rfl, rfl, hlaw⟩ | ⟨rfl, rfl, hlaw⟩ | ⟨rfl, rfl, hlaw⟩ |
    ⟨rfl, rfl, hlaw⟩ | ⟨rfl, rfl, hlaw⟩
  all_goals
    refine law_of_flagged h rfl ?_
    rw [hlaw]
  · exact Byte.carry_add _ _
  · exact Byte.sub_borrow _ _
  · exact Byte.sub_borrow _ _
  · exact Byte.shiftRight_bit _
  · exact Byte.shiftLeft_bit _

theorem result_of_mem_plainResults {byte : Byte} {number : Nat}
    (hresult : (i, number) ∈ m.plainResults x y byte) (h : Instruction.ofInt? word = some i) :
    ((m.executeWord word).register x).toNat = number ∧
      (x ≠ flagRegister →
        (m.executeWord word).register flagRegister = m.register flagRegister) := by
  simp only [plainResults, List.mem_cons, Prod.mk.injEq, List.not_mem_nil, or_false] at hresult
  rcases hresult with ⟨rfl, rfl⟩ | ⟨rfl, rfl⟩ | ⟨rfl, rfl⟩ | ⟨rfl, rfl⟩ | ⟨rfl, rfl⟩
  · exact result_of_plain h rfl (BitVec.toNat_add _ _)
  · exact result_of_plain h rfl (BitVec.toNat_or _ _)
  · exact result_of_plain h rfl (BitVec.toNat_and _ _)
  · exact result_of_plain h rfl (BitVec.toNat_xor _ _)
  · exact result_of_plain h rfl rfl

theorem executeWord_shift {shift : Register → Register → Instruction}
    (hshift : shift ∈ [Instruction.shiftRight, .shiftLeft]) {z : Register} {v w : Int}
    (hv : Instruction.ofInt? v = some (shift x y)) (hw : Instruction.ofInt? w = some (shift x z)) :
    m.executeWord w = { m.executeWord v with operand := w } := by
  have hsame : m.execute (some (shift x z)) = m.execute (some (shift x y)) := by
    simp only [List.mem_cons, List.not_mem_nil, or_false] at hshift
    rcases hshift with rfl | rfl <;> rfl
  rw [executeWord_eq, executeWord_eq, hv, hw, hsame]
  rfl

/-- The second register has kept its number when that is subtracted again. -/
theorem register_sub_after_add (hxy : x ≠ y) (hx : x ≠ flagRegister) (hy : y ≠ flagRegister)
    {v w : Int} (hv : Instruction.ofInt? v = some (.addReg x y))
    (hw : Instruction.ofInt? w = some (.sub x y)) :
    ((m.executeWord v).executeWord w).register x = m.register x := by
  have hsum := register_of_flagged hv (m := m) rfl hx
  have hother := register_of_flagged hv (m := m) rfl hy
  rw [if_pos rfl] at hsum
  rw [if_neg hxy] at hother
  rw [register_of_flagged hw rfl hx, if_pos rfl, hsum, hother, BitVec.add_sub_cancel]

end Laws

/-- The flag is exact whichever registers are the same and whichever is the flag register.
With the result beside it, no part of a sum, a difference or a shifted number is lost. What
sets no flag leaves the flag register alone if it is not the target. Shifts do not look at
their second register, and a number that is added can be subtracted again. -/
theorem arithmetic_exact (m : Machine) (x y : Register) :
    (∀ i flag law, (i, flag, law) ∈ m.flagLaws x y → ∀ word, Instruction.ofInt? word = some i →
      let after := m.executeWord word
      (after.register flagRegister).toNat = flag.toNat ∧
        (x ≠ flagRegister →
          law (after.register x).toNat (after.register flagRegister).toNat)) ∧
    (∀ byte i number, (i, number) ∈ m.plainResults x y byte →
      ∀ word, Instruction.ofInt? word = some i →
      let after := m.executeWord word
      (after.register x).toNat = number ∧
        (x ≠ flagRegister → after.register flagRegister = m.register flagRegister)) ∧
    (∀ z, ∀ shift ∈ [Instruction.shiftRight, .shiftLeft], ∀ v w,
      Instruction.ofInt? v = some (shift x y) → Instruction.ofInt? w = some (shift x z) →
      m.executeWord w = { m.executeWord v with operand := w }) ∧
    (x ≠ y → x ≠ flagRegister → y ≠ flagRegister → ∀ v w,
      Instruction.ofInt? v = some (.addReg x y) → Instruction.ofInt? w = some (.sub x y) →
      ((m.executeWord v).executeWord w).register x = m.register x) := by
  refine ⟨?_, ?_, ?_, ?_⟩
  · intro i flag law hlaw word h
    exact law_of_mem_flagLaws hlaw h
  · intro byte i number hresult word h
    exact result_of_mem_plainResults hresult h
  · intro z shift hshift v w hv hw
    exact executeWord_shift hshift hv hw
  · intro hxy hx hy v w hv hw
    exact register_sub_after_add hxy hx hy hv hw

/-- A sum with the flag register as its target, a difference with it as the second operand,
a byte added to another register, and a number added and subtracted again. -/
theorem arithmetic_exact_around_flag_register :
    let m := [0x6FC8, 0x6164].foldl executeWord (initial ⟨.int 600, .int 1, .absent, ⟨[7]⟩⟩)
    (m.register 0xF).toNat = 200 ∧ (m.register 1).toNat = 100 ∧
      ((m.executeWord 0x8F14).register 0xF).toNat = 1 ∧
      ((m.executeWord 0x81F5).register 1).toNat + 200 = 100 + 256 ∧
      ((m.executeWord 0x71FF).register 1).toNat = 99 ∧
      ((m.executeWord 0x8124).executeWord 0x8125).register 1 = m.register 1 := by
  intro m
  have hF : (m.register 0xF).toNat = 200 := by decide +kernel
  have h1 : (m.register 1).toNat = 100 := by decide +kernel
  obtain ⟨hsum, _⟩ := m.arithmetic_exact 0xF 1
  obtain ⟨hdifference, hresult, _⟩ := m.arithmetic_exact 1 0xF
  obtain ⟨_, _, _, hagain⟩ := m.arithmetic_exact 1 2
  have hcarry := (hsum _ _ _ (.head _) 0x8F14 (by decide)).1
  have hborrow := (hdifference _ _ _ (.tail _ (.head _)) 0x81F5 (by decide)).2 (by decide)
  have hbyte := (hresult 0xFF _ _ (.head _) 0x71FF (by decide)).1
  refine ⟨hF, h1, ?_, ?_, ?_, ?_⟩
  · rw [hF, h1] at hcarry
    exact hcarry
  · rw [hF, h1] at hborrow
    exact hborrow
  · rw [h1] at hbyte
    exact hbyte
  · exact hagain (by decide) (by decide) (by decide) 0x8124 0x8125 (by decide) (by decide)

end Machine
end ChipEight

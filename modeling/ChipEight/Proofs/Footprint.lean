import ChipEight.Machine.Execute

/-!
# What an instruction touches

One equation for each field of the machine, which names the instructions that change
it. Whether a field is kept by all instructions but some is read off here.
-/

namespace ChipEight

namespace Instruction

def draws : Instruction → Bool
  | clear => true
  | draw _ _ _ => true
  | _ => false

end Instruction

namespace Machine

variable (m : Machine) (i : Instruction)

theorem perform_settings : (m.perform i).settings = m.settings := by
  cases i <;> rfl

theorem perform_memory : (m.perform i).memory = match i with
    | .decimal x => m.memory.writeBlock m.base (decimalDigits (m.register x))
    | .store x => m.memory.writeBlock m.base (m.registers.toList.take (x.val + 1))
    | _ => m.memory := by
  cases i <;> rfl

theorem perform_index : (m.perform i).index = match i with
    | .loadIndex a => (a.toNat : Int)
    | .addIndex x => (m.index + (m.register x).toNat) % 65536
    | .glyph x => ((m.register x).toNat * Memory.glyphSize : Nat)
    | _ => m.index := by
  cases i <;> rfl

theorem perform_stack : (m.perform i).stack = match i with
    | .ret => m.stack.pop
    | .call _ => m.stack.push m.pc
    | _ => m.stack := by
  cases i <;> rfl

theorem perform_timers : (m.perform i).timers = match i with
    | .setDelay x => { m.timers with delay := m.register x }
    | .setSound x => { m.timers with sound := m.register x }
    | _ => m.timers := by
  cases i <;> rfl

theorem perform_blocked : (m.perform i).blocked = match i with
    | .waitKey x => some (x.val : Int)
    | _ => m.blocked := by
  cases i <;> rfl

theorem perform_display_of_not_draws (h : i.draws = false) :
    (m.perform i).display = m.display := by
  cases i <;> first | rfl | cases h

theorem perform_drawn : (m.perform i).drawn = if i.draws then true else m.drawn := by
  cases i <;> rfl

theorem pc_wrap_advance : m.advance.wrap.pc.toNat = (m.pc.toNat + 2) % 4096 :=
  Word.address_add_toNat _ _

theorem pc_wrap_skipIf (condition : Bool) :
    (m.skipIf condition).wrap.pc.toNat = (m.pc.toNat + if condition then 4 else 2) % 4096 := by
  change (Word.address (m.pc + if condition then 4 else 2)).toNat = _
  rw [Word.address_add_toNat]
  cases condition <;> rfl

/-- No instruction looks at the noted word. -/
theorem execute_withOperand (i : Option Instruction) (word : Int) :
    (m.withOperand word).execute i = (m.execute i).withOperand word := by
  cases i with
  | none => rfl
  | some i => cases i <;> rfl

theorem executeWord_eq (word : Int) :
    m.executeWord word = (m.execute (Instruction.ofInt? word)).withOperand word :=
  m.execute_withOperand _ word

end Machine
end ChipEight

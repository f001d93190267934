import ChipEight.Proofs.Action
import ChipEight.Proofs.Footprint
import Mathlib.Tactic.NormNum

/-!
# Well-formed machines

What holds of a machine from its making on. The widths of bytes, words and rows are
in their types; the rest is an invariant of the ordinary actions. The return addresses
stay below 4096 because the counter is brought back into memory after every
instruction, and the waiting register exists because its number comes out of a decoded
instruction.
-/

namespace ChipEight

structure CallStack.WellFormed (s : CallStack) : Prop where
  depth_le : s.depth ≤ CallStack.capacity
  slots_lt : ∀ k : Fin 16, s.slots[k].toNat < 4096

namespace CallStack.WellFormed

theorem empty : CallStack.empty.WellFormed where
  depth_le := Nat.zero_le _
  slots_lt := by
    intro k
    simp [CallStack.empty]

theorem push {s : CallStack} (h : s.WellFormed) {a : Word} (ha : a.toNat < 4096) :
    (s.push a).WellFormed where
  depth_le := by
    have hle := h.depth_le
    simp only [CallStack.push]
    split_ifs <;> omega
  slots_lt := by
    intro k
    by_cases hk : s.pointer.val = k.val
    · simpa [CallStack.push, hk] using ha
    · simpa [CallStack.push, Vector.getElem_set, hk] using h.slots_lt k

theorem pop {s : CallStack} (h : s.WellFormed) : s.pop.WellFormed where
  depth_le := (Nat.sub_le _ _).trans h.depth_le
  slots_lt := h.slots_lt

end CallStack.WellFormed

theorem Timers.isDue_int (t : Timers) (d : Int) :
    t.isDue (.int d) = decide (d ≤ t.counter + 1) := by
  rw [Timers.isDue, Number.le_int]
  norm_cast

namespace Machine

theorem wrap_pc_lt (m : Machine) : m.wrap.pc.toNat < 4096 := by
  rw [wrap, Word.address_toNat]
  exact Nat.mod_lt _ (by decide)

theorem make?_eq_ok {settings : Settings} {d : Int} (h : settings.timerDivider = .int d)
    (hd : 1 ≤ d) : make? settings = .ok (initial settings) := by
  have hlt : ¬((d : Rat) < ((1 : Int) : Rat)) := by exact_mod_cast not_lt.mpr hd
  rw [make?, h, Number.lt_int, decide_eq_false hlt]
  rfl

/-- What the types leave open about a machine in use. -/
structure WellFormed (m : Machine) : Prop where
  pc_lt : m.pc.toNat < 4096
  index_nonneg : 0 ≤ m.index
  index_le : m.index ≤ 0xFFFF
  stack : m.stack.WellFormed
  counter_lt : ∃ d, m.settings.timerDivider = .int d ∧ (m.timers.counter : Int) < d
  blocked_lt : ∀ slot, m.blocked = some slot → 0 ≤ slot ∧ slot < 16

namespace WellFormed

theorem initial {settings : Settings} {d : Int} (h : settings.timerDivider = .int d)
    (hd : 1 ≤ d) : (Machine.initial settings).WellFormed where
  pc_lt := by norm_num [Machine.initial, programStart]
  index_nonneg := le_rfl
  index_le := by norm_num [Machine.initial]
  stack := CallStack.WellFormed.empty
  counter_lt := ⟨d, h, by simpa [Machine.initial, Timers.zero] using Int.lt_of_lt_of_le one_pos hd⟩
  blocked_lt := by simp [Machine.initial]

variable {m : Machine}

theorem execute (h : m.WellFormed) (i : Option Instruction) : (m.execute i).WellFormed := by
  cases i with
  | none => exact { h with pc_lt := wrap_pc_lt m.advance }
  | some i =>
    refine ⟨wrap_pc_lt _, ?_, ?_, ?_, ?_, ?_⟩
    · change 0 ≤ (m.perform i).index
      rw [perform_index]
      have hold := h.index_nonneg
      split <;> omega
    · change (m.perform i).index ≤ 0xFFFF
      rw [perform_index]
      have hold := h.index_le
      split
      · rename_i a
        have ha := a.isLt
        omega
      · omega
      · rename_i x
        have hx := (m.register x).isLt
        simp only [Memory.glyphSize]
        omega
      · exact hold
    · change (m.perform i).stack.WellFormed
      rw [perform_stack]
      split
      · exact h.stack.pop
      · exact h.stack.push h.pc_lt
      · exact h.stack
    · change ∃ d, (m.perform i).settings.timerDivider = .int d ∧
        ((m.perform i).timers.counter : Int) < d
      rw [perform_settings, perform_timers]
      split <;> exact h.counter_lt
    · change ∀ slot, (m.perform i).blocked = some slot → _
      rw [perform_blocked]
      split
      · rintro slot ⟨⟩
        omega
      · exact h.blocked_lt

theorem tick (h : m.WellFormed) : m.tick.WellFormed := by
  obtain ⟨d, hd, hlt⟩ := h.counter_lt
  unfold Machine.tick
  rw [hd, Timers.tick, Timers.isDue_int]
  by_cases hdue : d ≤ m.timers.counter + 1
  · have hpos : (0 : Int) < d := by omega
    simp only [hdue, decide_true, if_true]
    exact { h with counter_lt := ⟨d, hd, hpos⟩ }
  · simp only [hdue, decide_false, Bool.false_eq_true, if_false]
    exact { h with counter_lt := ⟨d, hd, by push_cast; omega⟩ }

theorem press (h : m.WellFormed) (k : Key) : (m.press k).WellFormed := by
  unfold Machine.press
  split
  · exact { h with }
  · split
    · exact { h with blocked_lt := by rintro slot ⟨⟩ }
    · exact { h with }

theorem reset (h : m.WellFormed) : m.reset.WellFormed := by
  obtain ⟨d, hd, hlt⟩ := h.counter_lt
  have hnew : (Machine.initial m.settings).WellFormed := initial hd (by omega)
  exact { hnew with }

theorem act (h : m.WellFormed) {a : Action} (ha : a.isOrdinary = true) :
    (m.act a).WellFormed := by
  cases a with
  | note operand => exact { h with }
  | trace word => exact h
  | execute c =>
    match c with
    | none => exact h.execute none
    | some (.instruction i) => exact h.execute (some i)
  | tick => exact h.tick
  | decrement => exact { h with counter_lt := h.counter_lt }
  | press k => exact h.press k
  | release k => exact { h with }
  | reset => exact h.reset
  | load bytes offset => exact { h with }
  | shown => exact { h with }
  | adjust a => cases ha

theorem actAll (h : m.WellFormed) {as : List Action} (has : ∀ a ∈ as, a.isOrdinary = true) :
    (m.actAll as).WellFormed := by
  apply actAll_keeps _ h
  intro n a ha hn
  exact hn.act (has a ha)

theorem after (h : m.WellFormed) (threshold : Level) {ops : List Operation}
    (hops : ∀ op ∈ ops, op.isOrdinary = true) : (m.after threshold ops).WellFormed := by
  rw [after_eq_actAll]
  apply h.actAll
  refine forall_mem_history ?_ hops
  intro n op a hop ha
  exact isOrdinary_of_mem_actions hop ha

theorem pressResult (h : m.WellFormed) : m.pressResult = .ok () := by
  unfold Machine.pressResult
  cases hslot : m.blocked with
  | none => rfl
  | some slot =>
    obtain ⟨hlow, hhigh⟩ := h.blocked_lt slot hslot
    obtain ⟨n, rfl⟩ := Int.eq_ofNat_of_zero_le hlow
    have hn : n < 16 := by omega
    change (register? .write ((⟨n, hn⟩ : Register).val : Int)).map _ = _
    rw [register?_val]
    rfl

theorem handleResult (h : m.WellFormed) (e : Event) :
    m.handleResult e = .ok (!e.stops) := by
  unfold Machine.handleResult
  split
  · split
    · rw [h.pressResult]
      rfl
    · rfl
  · rfl

end WellFormed

theorem settings_act (m : Machine) (a : Action) : (m.act a).settings = m.settings := by
  cases a with
  | execute c =>
    cases c with
    | none => rfl
    | some c =>
      cases c with
      | instruction i => exact perform_settings m i
      | store last | load last =>
        simp only [Machine.act, carryOut, call, afterBlock]
        split_ifs <;> rfl
      | _ => rfl
  | tick => rw [Machine.act, tick_eq]
  | press k =>
    obtain ⟨registers, blocked, hpress⟩ := m.exists_press k
    rw [Machine.act, hpress]
  | adjust a => cases a <;> rfl
  | _ => rfl

theorem settings_actAll (m : Machine) (as : List Action) :
    (m.actAll as).settings = m.settings := by
  induction as generalizing m with
  | nil => rfl
  | cons a as ih => rw [actAll_cons, ih, settings_act]

theorem settings_after (threshold : Level) (m : Machine) (ops : List Operation) :
    (m.after threshold ops).settings = m.settings := by
  rw [after_eq_actAll, settings_actAll]

/-- The sizes and the widths that are in the types of a machine, as numbers. -/
structure Sized (m : Machine) : Prop where
  memory_length : m.memory.toList.length = 4096
  memory_le : ∀ b ∈ m.memory.toList, b.toNat ≤ 255
  registers_length : m.registers.toList.length = 16
  registers_le : ∀ b ∈ m.registers.toList, b.toNat ≤ 255
  slots_length : m.stack.slots.toList.length = 16
  pointer_lt : m.stack.pointer.val < 16
  delay_le : m.timers.delay.toNat ≤ 255
  sound_le : m.timers.sound.toNat ≤ 255
  keys_length : m.keys.toList.length = 16
  pixel_iff : ∀ x y : Nat, (∃ lit, m.pixel x y = .ok lit) ↔ x < 64 ∧ y < 32

theorem lt_of_place?_natCast {access : Access} {length n k : Nat}
    (h : place? access length (n : Int) = .ok k) : n < length := by
  have hneg : ¬(n : Int) < 0 := by omega
  simp only [place?, if_neg hneg] at h
  split_ifs at h with _ hlt
  omega

theorem pixel_of_lt (m : Machine) {x y : Nat} (hx : x < 64) (hy : y < 32) :
    m.pixel x y = .ok (m.display.isLit x y) := by
  have hcolumn : place? .read Display.width (x : Int) = .ok x :=
    place?_natCast .read hx (by decide)
  have hrow : place? .read Display.height (y : Int) = .ok y :=
    place?_natCast .read hy (by decide)
  rw [pixel, hcolumn, hrow]
  rfl

theorem lt_of_pixel_eq_ok {m : Machine} {x y : Nat} {lit : Bool} (h : m.pixel x y = .ok lit) :
    x < 64 ∧ y < 32 := by
  unfold pixel at h
  cases hcolumn : place? .read Display.width (x : Int) with
  | error e => rw [hcolumn] at h; cases h
  | ok column =>
    cases hrow : place? .read Display.height (y : Int) with
    | error e => rw [hcolumn, hrow] at h; cases h
    | ok row => exact ⟨lt_of_place?_natCast hcolumn, lt_of_place?_natCast hrow⟩

theorem sized (m : Machine) : m.Sized where
  memory_length := by simp
  memory_le b _ := Nat.le_of_lt_succ b.isLt
  registers_length := by simp
  registers_le b _ := Nat.le_of_lt_succ b.isLt
  slots_length := by simp
  pointer_lt := m.stack.pointer.isLt
  delay_le := Nat.le_of_lt_succ m.timers.delay.isLt
  sound_le := Nat.le_of_lt_succ m.timers.sound.isLt
  keys_length := by simp
  pixel_iff x y := by
    constructor
    · rintro ⟨lit, h⟩
      exact lt_of_pixel_eq_ok h
    · rintro ⟨hx, hy⟩
      exact ⟨_, m.pixel_of_lt hx hy⟩

end Machine
end ChipEight

import ChipEight.Proofs.Waiting
import Mathlib.Data.List.Nodup

/-!
# The history of the keys

Only presses and releases, direct ones and those of the window's events, move a key, and
each moves one. So whether a key is down is decided by the last of them that moved it, no
matter what else goes on, and the two instructions that skip by a key follow that.
-/

namespace ChipEight

def Event.keyWrite? : Event → Option (Key × Bool)
  | keyDown code => (Keyboard.key? code).map (·, true)
  | keyUp code => (Keyboard.key? code).map (·, false)
  | quit => none
  | other => none

/-- The key that an operation moves, and whether it goes down. What is no key moves none. -/
def Operation.keyWrite? : Operation → Option (Key × Bool)
  | press offer => offer.key?.map (·, true)
  | release offer => offer.key?.map (·, false)
  | event e => e.keyWrite?
  | _ => none

def Action.keyWrite? : Action → Option (Key × Bool)
  | press k => some (k, true)
  | release k => some (k, false)
  | _ => none

/-- Where the last of several moves of a key left it. -/
def lastWrite (k : Key) (writes : List (Key × Bool)) : Option Bool :=
  (writes.filter fun w => w.1 = k).getLast?.map Prod.snd

theorem lastWrite_cons_getD (k : Key) (w : Key × Bool) (writes : List (Key × Bool))
    (start : Bool) : (lastWrite k (w :: writes)).getD start =
      (lastWrite k writes).getD (if w.1 = k then w.2 else start) := by
  unfold lastWrite
  by_cases hkey : w.1 = k
  · simp only [List.filter_cons, hkey, decide_true, if_true, List.getLast?_cons]
    cases (writes.filter fun w => w.1 = k).getLast? <;> rfl
  · simp only [List.filter_cons, hkey, decide_false, Bool.false_eq_true, if_false]

namespace Keyboard

/-- No two entries of the layout have the same code. -/
theorem key?_of_mem_layout : ∀ entry ∈ layout, key? entry.1.toNat = some entry.2 := by
  decide

theorem exists_mem_layout : ∀ k : Key, ∃ entry ∈ layout, entry.2 = k := by
  decide

theorem nodup_layout : (layout.map Prod.snd).Nodup := by
  decide

theorem existsUnique_code (k : Key) : ∃! code, key? code = some k := by
  obtain ⟨entry, hentry, rfl⟩ := exists_mem_layout k
  refine ⟨entry.1.toNat, key?_of_mem_layout entry hentry, ?_⟩
  intro code hcode
  obtain ⟨found, hfound, hsame⟩ := Option.map_eq_some_iff.mp hcode
  have hmem : found ∈ layout := List.mem_of_find?_eq_some hfound
  have hcodes : decide ((found.1.toNat : Int) = code) = true :=
    List.find?_some (p := fun entry : Char × Key => (entry.1.toNat : Int) = code) hfound
  rw [← of_decide_eq_true hcodes, List.inj_on_of_nodup_map nodup_layout hmem hentry hsame]

end Keyboard

namespace Event

theorem stops_iff {e : Event} :
    e.stops = true ↔ e = .quit ∨ e = .keyDown Keyboard.escapeCode := by
  cases e <;> simp [stops]

theorem keyWrite?_of_stops {e : Event} (h : e.stops = true) : e.keyWrite? = none := by
  obtain rfl | rfl := stops_iff.mp h <;> rfl

end Event

namespace Machine

section Moves

variable {m : Machine}

theorem keys_carryOut (m : Machine) (c : Option Call) : (m.carryOut c).keys = m.keys := by
  match c with
  | none => rfl
  | some (.instruction i) => cases i <;> rfl
  | some (.compare _ _ _) | some (.drawRows _ _ _) | some (.pointAt _) | some (.waitFor _)
  | some (.randomInVain _) => rfl
  | some (.store last) | some (.load last) =>
    simp only [carryOut, call, afterBlock]
    split_ifs <;> rfl

theorem keys_act (m : Machine) {a : Action} (ha : a ≠ .reset) :
    (m.act a).keys = match a.keyWrite? with
      | some (k, down) => (m.setKey k down).keys
      | none => m.keys := by
  cases a with
  | execute c => exact keys_carryOut m c
  | tick =>
    change m.tick.keys = m.keys
    rw [tick_eq]
  | press k =>
    obtain ⟨registers, blocked, hpress⟩ := m.exists_press k
    change (m.press k).keys = (m.setKey k true).keys
    rw [hpress]
  | reset => exact absurd rfl ha
  | adjust b => cases b <;> rfl
  | note _ | trace _ | decrement | release _ | load _ _ | shown => rfl

theorem isDown_act (m : Machine) {a : Action} (ha : a ≠ .reset) (k : Key) :
    (m.act a).isDown k = (lastWrite k a.keyWrite?.toList).getD (m.isDown k) := by
  rw [isDown, keys_act m ha]
  cases a.keyWrite? with
  | none => rfl
  | some w =>
    have hset := m.isDown_setKey w.1 k w.2
    rw [Option.toList_some, lastWrite_cons_getD]
    exact hset

theorem isDown_actAll {as : List Action} (has : .reset ∉ as) (k : Key) :
    (m.actAll as).isDown k =
      (lastWrite k (as.filterMap Action.keyWrite?)).getD (m.isDown k) := by
  induction as generalizing m with
  | nil => rfl
  | cons a as ih =>
    obtain ⟨hfirst, hrest⟩ := not_or.mp (mt List.mem_cons.mpr has)
    -- what the first action leaves counts where no later one moves the key
    rw [actAll_cons, ih hrest, isDown_act m (Ne.symm hfirst)]
    cases hmove : a.keyWrite? with
    | none =>
      rw [List.filterMap_cons_none hmove]
      rfl
    | some w =>
      rw [List.filterMap_cons_some hmove, lastWrite_cons_getD, Option.toList_some,
        lastWrite_cons_getD]
      rfl

end Moves

section History

variable {m : Machine} {ops : List Operation}

theorem filterMap_keyWrite?_of_runs {as : List Action} (h : ∀ a ∈ as, a.runs = true) :
    as.filterMap Action.keyWrite? = [] := by
  rw [List.filterMap_eq_nil_iff]
  intro a ha
  have hruns := h a ha
  cases a with
  | press _ | release _ => cases hruns
  | _ => rfl

/-- What an operation makes of the keys does not depend on the machine. -/
theorem filterMap_keyWrite?_actions (m : Machine) (op : Operation) :
    (m.actions op).filterMap Action.keyWrite? = op.keyWrite?.toList := by
  cases op with
  | cycle => exact filterMap_keyWrite?_of_runs fun _ ha => runs_of_mem_cycleActions ha
  | run seconds =>
    simp only [actions]
    split
    · exact filterMap_keyWrite?_of_runs fun _ ha => runs_of_mem_cyclesActions ha
    · rfl
  | load image offset | call mnemonic operands | render view =>
    simp only [actions]
    split <;> rfl
  | press offer | release offer =>
    simp only [actions, Operation.keyWrite?]
    cases offer.key? <;> rfl
  | event e =>
    cases e with
    | keyDown code | keyUp code =>
      simp only [actions, eventActions, Operation.keyWrite?, Event.keyWrite?]
      cases Keyboard.key? code <;> rfl
    | quit | other => rfl
  | tick | decrement | reset | count _ | execute _ | skip | pixel _ _ | fetch | dump | adjust _ =>
    rfl

theorem filterMap_keyWrite?_history (m : Machine) (ops : List Operation) :
    (m.history ops).filterMap Action.keyWrite? = ops.filterMap Operation.keyWrite? := by
  induction ops generalizing m with
  | nil => rfl
  | cons op ops ih =>
    rw [history, List.filterMap_append, filterMap_keyWrite?_actions, ih]
    cases hmove : op.keyWrite? with
    | none => rw [List.filterMap_cons_none hmove]; rfl
    | some w => rw [List.filterMap_cons_some hmove]; rfl

theorem ne_reset_of_causes {op : Operation} (hop : op ≠ .reset) {a : Action}
    (h : op.causes a = true) : a ≠ .reset := by
  rintro rfl
  cases op with
  | reset => exact hop rfl
  | _ => cases h

/-- Without a reset the last move of a key in a run decides. -/
theorem isDown_after (m : Machine) (threshold : Level) (hops : ∀ op ∈ ops, op ≠ .reset)
    (k : Key) : (m.after threshold ops).isDown k =
      (lastWrite k (ops.filterMap Operation.keyWrite?)).getD (m.isDown k) := by
  have hreset : .reset ∉ m.history ops := by
    intro hmem
    obtain ⟨op, hop, hcause⟩ := exists_causes_of_mem_history hmem
    exact ne_reset_of_causes (hops op hop) hcause rfl
  rw [after_eq_actAll, isDown_actAll hreset, filterMap_keyWrite?_history]

theorem isDown_apply_of_ne (m : Machine) (threshold : Level) {op : Operation}
    (hop : op ≠ .reset) {k : Key} (hother : ∀ down, op.keyWrite? ≠ some (k, down)) :
    (m.apply threshold op).machine.isDown k = m.isDown k := by
  have hreset : .reset ∉ m.actions op := fun hmem =>
    ne_reset_of_causes hop (causes_of_mem_actions hmem) rfl
  change (m.outcome threshold op).machine.isDown k = m.isDown k
  rw [outcome_machine, isDown_actAll hreset, filterMap_keyWrite?_actions]
  cases hmove : op.keyWrite? with
  | none => rfl
  | some w =>
    have hkey : w.1 ≠ k := by
      rintro rfl
      exact hother w.2 hmove
    rw [Option.toList_some, lastWrite_cons_getD, if_neg hkey]
    rfl

end History

section Answers

variable {m : Machine} {e : Event}

theorem handleResult_of_stops (m : Machine) (h : e.stops = true) :
    m.handleResult e = .ok false := by
  obtain rfl | rfl := Event.stops_iff.mp h <;> rfl

theorem handleResult_ne_of_not_stops (m : Machine) (h : e.stops = false) :
    m.handleResult e ≠ .ok false := by
  unfold handleResult
  rw [h]
  split
  · split
    · cases m.pressResult <;> exact nofun
    · exact nofun
  · exact nofun

theorem answer_event_eq_false_iff (m : Machine) (threshold : Level) (e : Event) :
    (m.apply threshold (.event e)).answer = .ok (.flag false) ↔
      e = .quit ∨ e = .keyDown Keyboard.escapeCode := by
  rw [← Event.stops_iff]
  change (m.handleResult e).map Answer.flag = _ ↔ _
  constructor
  · intro hanswer
    by_contra hstops
    have hne := m.handleResult_ne_of_not_stops (Bool.eq_false_iff.mpr hstops)
    cases hresult : m.handleResult e with
    | ok goes =>
      rw [hresult] at hanswer hne
      cases hanswer
      exact hne rfl
    | error err =>
      rw [hresult] at hanswer
      cases hanswer
  · intro hstops
    rw [m.handleResult_of_stops hstops]
    rfl

end Answers

section Skips

variable {m : Machine} {x : Register}

/-- Whether an operation has a machine execute one instruction and nothing else: a word
executed directly, a cycle that does not wait, or a call by mnemonic. -/
def executesOnly (m : Machine) (i : Instruction) : Operation → Prop
  | .execute word => Instruction.ofInt? word = some i
  | .cycle => m.blocked = none ∧ Instruction.decode m.fetch = some i
  | .call mnemonic operands => Call.ofOperands mnemonic operands = .ok (.instruction i)
  | _ => False

/-- Before its one instruction, an operation has changed nothing that it could look at. -/
theorem exists_execute {i : Instruction} {op : Operation} (h : m.executesOnly i op)
    (threshold : Level) : ∃ p : Machine, (m.apply threshold op).machine = p.execute (some i) ∧
      p.pc = m.pc ∧ p.registers = m.registers ∧ p.keys = m.keys := by
  change ∃ p : Machine, (m.outcome threshold op).machine = _ ∧ _
  cases op with
  | execute word =>
    have hword : Instruction.ofInt? word = some i := h
    refine ⟨m.withOperand word, ?_, rfl, rfl, rfl⟩
    simp only [outcome, changed, executeWord, hword]
  | cycle =>
    refine ⟨m.prepare, ?_, m.pc_prepare, ?_, m.keys_prepare⟩
    · rw [← h.2, ← cycle_of_blocked_eq_none h.1]
      rfl
    · rw [prepare, tick_eq]
      rfl
  | call mnemonic operands =>
    have hcall : Call.ofOperands mnemonic operands = .ok (.instruction i) := h
    refine ⟨m, ?_, rfl, rfl, rfl⟩
    simp only [outcome, hcall, call]
  | _ => cases h

theorem keyDown_iff (m : Machine) (x : Register) :
    m.keyDown x = true ↔ ∃ k : Key, (m.register x).toNat = k.val ∧ m.isDown k = true := by
  unfold keyDown
  constructor
  · intro h
    split_ifs at h with hlt
    exact ⟨⟨_, hlt⟩, rfl, h⟩
  · rintro ⟨k, hk, hdown⟩
    have hlt : (m.register x).toNat < 16 := by
      rw [hk]
      exact k.isLt
    have hkey : k = ⟨(m.register x).toNat, hlt⟩ := Fin.ext hk.symm
    rw [dif_pos hlt, ← hkey, hdown]

theorem pc_of_executesOnly {i : Instruction} {op : Operation} (h : m.executesOnly i op)
    (threshold : Level) {x : Register} {c : Bool → Bool}
    (hi : ∀ p : Machine, p.perform i = p.skipIf (c (p.keyDown x))) :
    (m.apply threshold op).machine.pc.toNat =
      (m.pc.toNat + if c (m.keyDown x) then 4 else 2) % 4096 := by
  obtain ⟨p, hmachine, hpc, hregisters, hkeys⟩ := exists_execute h threshold
  have hsame : p.keyDown x = m.keyDown x := by
    rw [Bool.eq_iff_iff, keyDown_iff, keyDown_iff]
    simp only [register, isDown, hregisters, hkeys]
  rw [hmachine, execute, hi, pc_wrap_skipIf, hpc, hsame]

end Skips

/-- Without a reset, the last valid press or release of a key decides whether it is down,
and one that was neither pressed nor released is as it was. Each key has one key code, what
is no press or release of a key leaves it alone, and what asks to stop moves none. An event
answers false where it asks to stop, and never fails on a well-formed machine. The two
instructions that skip by a key do so by the key that their register holds, if there is
such a key; it holds a byte, as long as no call has loaded anything else. -/
theorem last_writer_wins (m : Machine) (threshold : Level) {ops : List Operation}
    (hops : ∀ op ∈ ops, op.storesBytes = true ∧ op ≠ .reset) :
    let now := m.after threshold ops
    let down := fun k => (lastWrite k (ops.filterMap Operation.keyWrite?)).getD (m.isDown k)
    (∀ k, now.isDown k = down k) ∧
    (∀ k, ∃! code, Keyboard.key? code = some k) ∧
    (∀ op k, op ≠ .reset → (∀ b, op.keyWrite? ≠ some (k, b)) →
      (now.apply threshold op).machine.isDown k = now.isDown k) ∧
    (∀ e, (now.apply threshold (.event e)).answer = .ok (.flag false) ↔
      e = .quit ∨ e = .keyDown Keyboard.escapeCode) ∧
    (∀ e : Event, e.stops = true → e.keyWrite? = none) ∧
    (now.WellFormed → ∀ e, (now.apply threshold (.event e)).answer = .ok (.flag !e.stops)) ∧
    ∀ (x : Register) (op : Operation),
      let pressed := ∃ k : Key, (now.register x).toNat = k.val ∧ down k = true
      (now.executesOnly (.skipPressed x) op → (now.apply threshold op).machine.pc.toNat =
        (now.pc.toNat + if pressed then 4 else 2) % 4096) ∧
      (now.executesOnly (.skipReleased x) op → (now.apply threshold op).machine.pc.toNat =
        (now.pc.toNat + if pressed then 2 else 4) % 4096) := by
  intro now down
  have hresets : ∀ op ∈ ops, op ≠ .reset := fun op hop => (hops op hop).2
  have hdown : ∀ k, now.isDown k = down k := m.isDown_after threshold hresets
  refine ⟨hdown, Keyboard.existsUnique_code, ?_, now.answer_event_eq_false_iff threshold,
    fun _ => Event.keyWrite?_of_stops, ?_, ?_⟩
  · intro op k hop hother
    exact now.isDown_apply_of_ne threshold hop hother
  · intro hwell e
    exact congrArg (Except.map Answer.flag) (hwell.handleResult e)
  · intro x op pressed
    have hkey : now.keyDown x = decide pressed := by
      rw [Bool.eq_iff_iff, keyDown_iff, decide_eq_true_iff]
      simp only [hdown]
      rfl
    constructor
    · intro hexec
      rw [pc_of_executesOnly hexec threshold (x := x) (c := id) fun _ => rfl, hkey]
      simp only [id, decide_eq_true_eq]
    · intro hexec
      rw [pc_of_executesOnly hexec threshold (x := x) (c := not) fun _ => rfl, hkey]
      simp only [Bool.not_eq_true', decide_eq_false_iff_not, ite_not]

/-- A key is pressed by the window, let up, and pressed directly; an offer that is no key
and an Escape come after it, and its number is loaded last. -/
theorem last_writer_wins_after_escape :
    let m := initial ⟨.int 600, .int 1, .absent, ⟨[5]⟩⟩
    let now := m.after .debug [.event (.keyDown 113), .event (.keyUp 113),
      .press (.number (.int 4)), .release (.number (.int 20)), .event (.keyDown 27),
      .call "LD_BYTE" [1, 4]]
    now.isDown 4 = true ∧ (now.apply .debug (.event (.keyDown 27))).answer = .ok (.flag false) ∧
      (now.apply .debug (.execute 0xE19E)).machine.pc.toNat = 0x206 ∧
      (now.apply .debug (.execute 0xE1A1)).machine.pc.toNat = 0x204 := by
  intro m now
  have hops : ∀ op ∈ [Operation.event (.keyDown 113), .event (.keyUp 113),
      .press (.number (.int 4)), .release (.number (.int 20)), .event (.keyDown 27),
      .call "LD_BYTE" [1, 4]], op.storesBytes = true ∧ op ≠ .reset := by decide
  obtain ⟨hdown, _, _, hfalse, _, _, hskips⟩ := last_writer_wins m .debug hops
  obtain ⟨hpressed, _⟩ := hskips 1 (.execute 0xE19E)
  obtain ⟨_, hreleased⟩ := hskips 1 (.execute 0xE1A1)
  have hpc : now.pc.toNat = 0x202 := by decide +kernel
  have hloaded : ((now.register 1).toNat : Int) = 4 :=
    register_apply_loadByte _ .debug (register?_val .write 1) (hops _ (by decide)).1
  have hregister : ∃ k : Key, (now.register 1).toNat = k.val ∧ now.isDown k = true :=
    ⟨4, Int.ofNat_inj.mp hloaded, hdown 4⟩
  simp only [← hdown] at hpressed hreleased
  refine ⟨hdown 4, (hfalse (.keyDown 27)).mpr (Or.inr rfl), ?_, ?_⟩
  · rw [hpressed rfl, hpc, if_pos hregister]
  · rw [hreleased rfl, hpc, if_pos hregister]

end Machine
end ChipEight

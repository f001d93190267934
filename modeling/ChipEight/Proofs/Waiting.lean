import ChipEight.Proofs.WellFormed
import Mathlib.Data.List.Basic

/-!
# Waiting for a key

A waiting machine fetches and ticks, and that is all its cycles do. Its history then has
nothing but notes of what was fetched and actions that a clock and a keypad would have
had without any cycle, and no note is ever read. Only a key that goes down, or a reset,
ends the wait.
-/

namespace ChipEight

namespace Action

def notes : Action → Bool
  | note _ => true
  | _ => false

/-- Whether an action can go on while a machine waits, and leaves it waiting. -/
def idles : Action → Bool
  | note _ => true
  | tick => true
  | decrement => true
  | release _ => true
  | _ => false

def wakes : Action → Bool
  | press _ => true
  | reset => true
  | _ => false

end Action

namespace Operation

/-- Whether an operation is one that a waiting machine waits through: it executes
nothing but cycles, and brings no key down. -/
def waits : Operation → Bool
  | cycle => true
  | run _ => true
  | tick => true
  | decrement => true
  | press offer => offer.key?.isNone
  | release _ => true
  | _ => false

def wakes (op : Operation) : Prop := op = reset ∨ ∃ k, op.causes (.press k) = true

end Operation

namespace Machine

/-- An operation with a tick in the place of each of its cycles. -/
def ticking (m : Machine) : Operation → List Operation
  | .cycle => [.tick]
  | .run seconds =>
    match m.cyclesFor seconds with
    | .ok count => List.replicate count.toNat .tick
    | .error _ => []
  | op => [op]

def deliver (m : Machine) (x : Register) (k : Key) : Machine :=
  { m with
    registers := (m.setRegister x (BitVec.ofNat 8 k.val)).registers
    keys := (m.setKey k true).keys
    blocked := none }

/-- While a machine waits only the noted word, the keys, the timers and the beeps can
change. -/
theorem actAll_of_idles {as : List Action} (has : ∀ a ∈ as, a.idles = true)
    (m : Machine) :
    ∃ operand keys timers beeps, m.actAll as =
      { m with operand := operand, keys := keys, timers := timers, beeps := beeps } := by
  apply actAll_keeps (P := fun n => ∃ operand keys timers beeps, n =
    { m with operand := operand, keys := keys, timers := timers, beeps := beeps })
  · rintro n a ha ⟨operand, keys, timers, beeps, rfl⟩
    have hidles := has a ha
    cases a with
    | tick => exact ⟨_, _, _, _, tick_eq _⟩
    | note _ | decrement | release _ => exact ⟨_, _, _, _, rfl⟩
    | _ => cases hidles
  · exact ⟨_, _, _, _, rfl⟩

theorem blocked_actAll_of_idles {as : List Action} (has : ∀ a ∈ as, a.idles = true)
    (m : Machine) : (m.actAll as).blocked = m.blocked := by
  obtain ⟨operand, keys, timers, beeps, hframe⟩ := actAll_of_idles has m
  rw [hframe]

theorem cycle_of_isBlocked {m : Machine} (h : m.isBlocked = true) : m.cycle = m.prepare := by
  simp only [cycle, isBlocked_prepare, h, if_true]

theorem cycle_of_blocked_eq_none {m : Machine} (h : m.blocked = none) :
    m.cycle = m.prepare.execute (Instruction.decode m.fetch) := by
  have hfree : m.isBlocked = false := by rw [isBlocked, h]; rfl
  simp only [cycle, isBlocked_prepare, hfree, Bool.false_eq_true, if_false]

theorem tick_withOperand (m : Machine) (word : Int) :
    (m.withOperand word).tick = m.tick.withOperand word := by
  rw [tick_eq, tick_eq]
  rfl

theorem pc_prepare (m : Machine) : m.prepare.pc = m.pc := by
  rw [prepare, tick_eq]
  rfl

theorem keys_prepare (m : Machine) : m.prepare.keys = m.keys := by
  rw [prepare, tick_eq]
  rfl

section History

variable {m s : Machine} {ops : List Operation}

/-- The cycles of a waiting machine are ticks with a note before each of them. -/
theorem filter_cyclesActions (h : m.isBlocked = true) (n : Nat) :
    (cyclesActions n m).filter (fun a => !a.notes) = List.replicate n .tick := by
  induction n generalizing m with
  | zero => rfl
  | succ n ih =>
    have hnext : m.cycle.isBlocked = true := by
      rw [cycle_of_isBlocked h, isBlocked_prepare, h]
    rw [cyclesActions, List.filter_append, ih hnext, cycleActions, if_pos h]
    rfl

theorem filter_actions (h : m.isBlocked = true) {op : Operation} (hop : op.waits = true) :
    (m.actions op).filter (fun a => !a.notes) = (m.ticking op).flatMap m.actions := by
  cases op with
  | cycle =>
    rw [actions, cycleActions, if_pos h]
    rfl
  | run seconds =>
    cases hcount : m.cyclesFor seconds with
    | ok count =>
      simp only [actions, ticking, hcount]
      rw [filter_cyclesActions h, List.flatMap_replicate]
      simp [actions, List.flatten_replicate_singleton]
    | error e => simp [actions, ticking, hcount]
  | tick | decrement => rfl
  | press offer =>
    have hnone : offer.key? = none := Option.isNone_iff_eq_none.mp hop
    simp [actions, ticking, hnone]
  | release offer => cases hkey : offer.key? <;> simp [actions, ticking, hkey, Action.notes]
  | _ => cases hop

/-- What stands in the place of an operation does not look at the machine. -/
theorem actions_of_mem_ticking {op op' : Operation} (hop : op.waits = true)
    (h : op' ∈ s.ticking op) (m : Machine) : m.actions op' = s.actions op' := by
  -- only cycles depend on what is fetched, and none of them is left
  cases op with
  | cycle => rw [List.mem_singleton.mp h]; rfl
  | run seconds =>
    simp only [ticking] at h
    split at h
    · rw [List.eq_of_mem_replicate h]; rfl
    · cases h
  | tick | decrement | press offer | release offer => rw [List.mem_singleton.mp h]; rfl
  | _ => cases hop

theorem ticking_congr (h : m.settings = s.settings) (op : Operation) :
    m.ticking op = s.ticking op := by
  cases op with
  | run seconds => simp only [ticking, cyclesFor_congr (congrArg Settings.cycleRate h)]
  | _ => rfl

theorem idles_of_mem_cyclesActions (h : m.isBlocked = true) {n : Nat} {a : Action}
    (ha : a ∈ cyclesActions n m) : a.idles = true := by
  cases hnote : a.notes with
  | true =>
    cases a with
    | note _ => rfl
    | _ => cases hnote
  | false =>
    have hmem : a ∈ List.replicate n .tick := by
      rw [← filter_cyclesActions h n]
      exact List.mem_filter.mpr ⟨ha, by rw [hnote]; rfl⟩
    rw [List.eq_of_mem_replicate hmem]
    rfl

theorem idles_of_mem_actions (h : m.isBlocked = true) {op : Operation} (hop : op.waits = true)
    {a : Action} (ha : a ∈ m.actions op) : a.idles = true := by
  cases op with
  | cycle =>
    rw [actions, cycleActions, if_pos h] at ha
    simp only [List.append_nil, List.mem_cons, List.not_mem_nil, or_false] at ha
    rcases ha with rfl | rfl <;> rfl
  | run seconds =>
    simp only [actions] at ha
    split at ha
    · exact idles_of_mem_cyclesActions h ha
    · cases ha
  | tick | decrement => rw [List.mem_singleton.mp ha]; rfl
  | press offer =>
    have hnone : offer.key? = none := Option.isNone_iff_eq_none.mp hop
    simp [actions, hnone] at ha
  | release offer =>
    obtain ⟨k, _, rfl⟩ := List.mem_map.mp ha
    rfl
  | _ => cases hop

theorem isBlocked_actAll_actions (h : m.isBlocked = true) {op : Operation}
    (hop : op.waits = true) : (m.actAll (m.actions op)).isBlocked = true := by
  have hidles : ∀ a ∈ m.actions op, a.idles = true := fun a ha => idles_of_mem_actions h hop ha
  rw [isBlocked, blocked_actAll_of_idles hidles]
  exact h

theorem idles_of_mem_history (h : m.isBlocked = true) (hops : ∀ op ∈ ops, op.waits = true)
    {a : Action} (ha : a ∈ m.history ops) : a.idles = true := by
  induction ops generalizing m with
  | nil => cases ha
  | cons op ops ih =>
    obtain ⟨hfirst, hrest⟩ := List.forall_mem_cons.mp hops
    rcases List.mem_append.mp ha with hin | hlater
    · exact idles_of_mem_actions h hfirst hin
    · exact ih (isBlocked_actAll_actions h hfirst) hrest hlater

/-- Where no operation looks at the machine, the history is known beforehand. -/
theorem history_eq_flatMap (h : ∀ op ∈ ops, ∀ n : Machine, n.actions op = s.actions op) :
    m.history ops = ops.flatMap s.actions := by
  induction ops generalizing m with
  | nil => rfl
  | cons op ops ih =>
    obtain ⟨hfirst, hrest⟩ := List.forall_mem_cons.mp h
    rw [history, ih hrest, hfirst m, List.flatMap_cons]

theorem filter_history (hs : m.settings = s.settings) (h : m.isBlocked = true)
    (hops : ∀ op ∈ ops, op.waits = true) :
    (m.history ops).filter (fun a => !a.notes) = (ops.flatMap s.ticking).flatMap s.actions := by
  induction ops generalizing m with
  | nil => rfl
  | cons op ops ih =>
    obtain ⟨hfirst, hrest⟩ := List.forall_mem_cons.mp hops
    have hsettings : (m.actAll (m.actions op)).settings = s.settings := by
      rw [settings_actAll, hs]
    have hsame : (m.ticking op).flatMap m.actions = (s.ticking op).flatMap s.actions := by
      rw [ticking_congr hs]
      apply List.flatMap_congr
      intro op' hop'
      exact actions_of_mem_ticking hfirst hop' m
    rw [history, List.filter_append, filter_actions h hfirst, hsame,
      ih hsettings (isBlocked_actAll_actions h hfirst) hrest, List.flatMap_cons,
      List.flatMap_append]

/-- Without its notes the history of a waiting machine is that of the ticks alone. -/
theorem history_ticking (h : m.isBlocked = true) (hops : ∀ op ∈ ops, op.waits = true) :
    m.history (ops.flatMap m.ticking) = (m.history ops).filter fun a => !a.notes := by
  rw [filter_history rfl h hops]
  apply history_eq_flatMap
  intro op' hop' n
  obtain ⟨op, hop, hmem⟩ := List.mem_flatMap.mp hop'
  exact actions_of_mem_ticking (hops op hop) hmem n

end History

section Notes

variable {as : List Action}

theorem act_withOperand {a : Action} (ha : a.idles = true) (hnote : a.notes = false)
    (m : Machine) (word : Int) :
    (m.withOperand word).act a = (m.act a).withOperand word ∧
      (m.withOperand word).reports a = m.reports a := by
  cases a with
  | tick => exact ⟨m.tick_withOperand word, rfl⟩
  | decrement | release _ => exact ⟨rfl, rfl⟩
  | note _ => cases hnote
  | _ => cases ha

/-- Nothing that goes on while a machine waits looks at the noted word. -/
theorem actAll_filter_notes (has : ∀ a ∈ as, a.idles = true) (m : Machine) (word : Int) :
    (∃ last, (m.withOperand word).actAll as =
      (m.actAll (as.filter fun a => !a.notes)).withOperand last) ∧
      (m.withOperand word).reportAll as = m.reportAll (as.filter fun a => !a.notes) := by
  -- a note changes the word for all that follows, so the induction is over every word
  induction as generalizing m word with
  | nil => exact ⟨⟨word, rfl⟩, rfl⟩
  | cons a as ih =>
    obtain ⟨hfirst, hrest⟩ := List.forall_mem_cons.mp has
    cases hnote : a.notes with
    | true =>
      cases a with
      | note next => exact ih hrest m next
      | _ => cases hnote
    | false =>
      obtain ⟨hact, hreports⟩ := act_withOperand hfirst hnote m word
      obtain ⟨hmachine, hlog⟩ := ih hrest (m.act a) word
      have hkept : (a :: as).filter (fun b => !b.notes) = a :: as.filter fun b => !b.notes :=
        List.filter_cons_of_pos (by rw [hnote]; rfl)
      rw [hkept, actAll_cons, actAll_cons, reportAll_cons, reportAll_cons, hact, hreports, hlog]
      exact ⟨hmachine, rfl⟩

theorem isDown_act_of_idles (m : Machine) {a : Action} (ha : a.idles = true) (k : Key) :
    (m.act a).isDown k = true ↔ m.isDown k = true ∧ a ≠ .release k := by
  cases a with
  | release l =>
    change (m.setKey l false).isDown k = true ↔ _
    rw [isDown_setKey]
    by_cases hkey : l = k <;> simp [hkey]
  | tick =>
    have hkeys : m.tick.keys = m.keys := by rw [tick_eq]
    simp [act, isDown, hkeys]
  | note _ | decrement => simp [act, isDown, withOperand, decrementTimers]
  | _ => cases ha

theorem isDown_actAll_of_idles (has : ∀ a ∈ as, a.idles = true) (m : Machine) (k : Key) :
    (m.actAll as).isDown k = true ↔ m.isDown k = true ∧ .release k ∉ as := by
  induction as generalizing m with
  | nil => simp
  | cons a as ih =>
    obtain ⟨hfirst, hrest⟩ := List.forall_mem_cons.mp has
    rw [actAll_cons, ih hrest, isDown_act_of_idles m hfirst, and_assoc, List.mem_cons, not_or,
      ne_comm]

end Notes

section Releases

variable {m : Machine} {ops : List Operation}

theorem mem_history_of_mem {op : Operation} (hop : op ∈ ops) {a : Action}
    (ha : ∀ n : Machine, a ∈ n.actions op) : a ∈ m.history ops := by
  induction ops generalizing m with
  | nil => cases hop
  | cons first ops ih =>
    rcases List.mem_cons.mp hop with rfl | hlater
    · exact List.mem_append_left _ (ha m)
    · exact List.mem_append_right _ (ih hlater)

theorem release_mem_history (hops : ∀ op ∈ ops, op.waits = true) (k : Key) :
    .release k ∈ m.history ops ↔ ∃ offer, .release offer ∈ ops ∧ offer.key? = some k := by
  constructor
  · intro h
    obtain ⟨op, hop, hcause⟩ := exists_causes_of_mem_history h
    have hwaits := hops op hop
    cases op with
    | release offer => exact ⟨offer, hop, of_decide_eq_true hcause⟩
    | event e => cases hwaits
    | _ => cases hcause
  · rintro ⟨offer, hmem, hkey⟩
    apply mem_history_of_mem hmem
    intro n
    simp [actions, hkey]

end Releases

section Waking

theorem isBlocked_carryOut {m : Machine} (h : m.isBlocked = true) (c : Option Call) :
    (m.carryOut c).isBlocked = true := by
  match c with
  | none => exact h
  | some (.instruction i) =>
    change (m.perform i).blocked.isSome = true
    rw [perform_blocked]
    split
    · rfl
    · exact h
  | some (.compare _ _ _) | some (.drawRows _ _ _) | some (.pointAt _)
  | some (.randomInVain _) => exact h
  | some (.waitFor _) => rfl
  | some (.store last) | some (.load last) =>
    simp only [carryOut, call, afterBlock]
    split_ifs <;> exact h

theorem isBlocked_act {m : Machine} (h : m.isBlocked = true) {a : Action}
    (ha : a.wakes = false) : (m.act a).isBlocked = true := by
  cases a with
  | execute c => exact isBlocked_carryOut h c
  | tick =>
    change m.tick.blocked.isSome = true
    rw [blocked_tick]
    exact h
  | press k | reset => cases ha
  | adjust b => cases b <;> exact h
  | _ => exact h

/-- Whatever is done to a waiting machine, only a key that goes down or a reset can end
the wait. -/
theorem exists_wakes {m : Machine} (h : m.isBlocked = true) (threshold : Level)
    {ops : List Operation} (hopen : (m.after threshold ops).isBlocked = false) :
    ∃ op ∈ ops, op.wakes := by
  by_contra hnone
  -- without such an operation no action of the history ends a wait, and each keeps it
  have hquiet : ∀ a ∈ m.history ops, a.wakes = false := by
    intro a ha
    obtain ⟨op, hop, hcause⟩ := exists_causes_of_mem_history ha
    cases a with
    | press k => exact absurd ⟨op, hop, Or.inr ⟨k, hcause⟩⟩ hnone
    | reset =>
      cases op with
      | reset => exact absurd ⟨.reset, hop, Or.inl rfl⟩ hnone
      | _ => cases hcause
    | _ => rfl
  have hstill : (m.actAll (m.history ops)).isBlocked = true := by
    apply actAll_keeps (P := fun n => n.isBlocked = true) _ h
    intro n a ha hn
    exact isBlocked_act hn (hquiet a ha)
  rw [after_eq_actAll, hstill] at hopen
  cases hopen

end Waking

section Keypad

variable {m : Machine} {offer : KeyOffer} {k : Key}

theorem press_of_blocked {x : Register} (h : m.blocked = some (x.val : Int)) (k : Key) :
    m.press k = m.deliver x k := by
  simp only [press, h, register?_val]
  rfl

theorem pressResult_of_blocked {x : Register} (h : m.blocked = some (x.val : Int)) :
    m.pressResult = .ok () := by
  simp only [pressResult, h, register?_val]
  rfl

theorem apply_press_of_blocked {x : Register} (h : m.blocked = some (x.val : Int))
    (threshold : Level) (hkey : offer.key? = some k) :
    m.apply threshold (.press offer) = ⟨m.deliver x k, [], .ok .done⟩ := by
  simp only [apply, outcome, hkey, press_of_blocked h, pressResult_of_blocked h]
  rfl

theorem apply_press_of_not_blocked (h : m.blocked = none) (threshold : Level)
    (hkey : offer.key? = some k) :
    m.apply threshold (.press offer) = ⟨m.setKey k true, [], .ok .done⟩ := by
  simp only [apply, outcome, hkey, press, pressResult, h]
  rfl

end Keypad

section Entry

variable {n : Machine}

theorem blocked_cycle_of_waitKey (h : n.blocked = none) {x : Register}
    (hword : Instruction.decode n.fetch = some (.waitKey x)) :
    n.cycle.blocked = some (x.val : Int) := by
  rw [cycle_of_blocked_eq_none h, hword]
  rfl

/-- A cycle makes a machine wait only by executing the instruction that waits. -/
theorem decode_of_blocked_cycle (h : n.blocked = none) {x : Register}
    (hblocked : n.cycle.blocked = some (x.val : Int)) :
    Instruction.decode n.fetch = some (.waitKey x) := by
  have hprepared : n.prepare.blocked = none := by
    rw [prepare, blocked_tick]
    exact h
  rw [cycle_of_blocked_eq_none h] at hblocked
  cases hword : Instruction.decode n.fetch with
  | none =>
    rw [hword] at hblocked
    cases hprepared.symm.trans hblocked
  | some i =>
    rw [hword] at hblocked
    change (n.prepare.perform i).blocked = _ at hblocked
    rw [perform_blocked] at hblocked
    split at hblocked
    · rw [Fin.ext (Int.ofNat.inj (Option.some.inj hblocked))]
    · cases hprepared.symm.trans hblocked

theorem pc_execute_waitKey (m : Machine) (x : Register) :
    (m.execute (some (.waitKey x))).pc.toNat = (m.pc.toNat + 2) % 4096 :=
  m.pc_wrap_advance

theorem isDown_cycle_of_waitKey (h : n.blocked = none) {x : Register}
    (hword : Instruction.decode n.fetch = some (.waitKey x)) (k : Key) :
    n.cycle.isDown k = n.isDown k := by
  rw [cycle_of_blocked_eq_none h, hword]
  change n.prepare.isDown k = n.isDown k
  rw [isDown, keys_prepare]
  rfl

end Entry

section Run

variable {m : Machine} {ops : List Operation}

/-- But for the noted word, waiting is the same with ticks in the place of cycles. -/
theorem after_ticking (h : m.isBlocked = true) (threshold : Level)
    (hops : ∀ op ∈ ops, op.waits = true) :
    (∃ last, m.after threshold ops =
      (m.after threshold (ops.flatMap m.ticking)).withOperand last) ∧
      m.transcript threshold ops = m.transcript threshold (ops.flatMap m.ticking) := by
  have hidles : ∀ a ∈ m.history ops, a.idles = true :=
    fun a ha => idles_of_mem_history h hops ha
  obtain ⟨hmachine, hlog⟩ := actAll_filter_notes hidles m m.operand
  rw [← history_ticking h hops] at hmachine hlog
  rw [after_eq_actAll, after_eq_actAll, transcript_eq_reportAll, transcript_eq_reportAll]
  exact ⟨hmachine, congrArg _ hlog⟩

theorem after_of_waits (h : m.isBlocked = true) (threshold : Level)
    (hops : ∀ op ∈ ops, op.waits = true) :
    m.after threshold ops = { m with
      operand := (m.after threshold ops).operand
      keys := (m.after threshold ops).keys
      timers := (m.after threshold (ops.flatMap m.ticking)).timers
      beeps := (m.after threshold (ops.flatMap m.ticking)).beeps } := by
  have hidles : ∀ a ∈ m.history ops, a.idles = true :=
    fun a ha => idles_of_mem_history h hops ha
  obtain ⟨⟨last, htwin⟩, _⟩ := after_ticking h threshold hops
  have htimers : (m.after threshold (ops.flatMap m.ticking)).timers =
      (m.after threshold ops).timers := by
    rw [htwin]
    rfl
  have hbeeps : (m.after threshold (ops.flatMap m.ticking)).beeps =
      (m.after threshold ops).beeps := by
    rw [htwin]
    rfl
  obtain ⟨operand, keys, timers, beeps, hframe⟩ := actAll_of_idles hidles m
  rw [htimers, hbeeps, after_eq_actAll, hframe]

theorem isDown_after_of_waits (h : m.isBlocked = true) (threshold : Level)
    (hops : ∀ op ∈ ops, op.waits = true) (k : Key) :
    (m.after threshold ops).isDown k = true ↔
      m.isDown k = true ∧ ∀ offer, .release offer ∈ ops → offer.key? ≠ some k := by
  have hidles : ∀ a ∈ m.history ops, a.idles = true :=
    fun a ha => idles_of_mem_history h hops ha
  rw [after_eq_actAll, isDown_actAll_of_idles hidles, release_mem_history hops]
  push Not
  rfl

end Run

/-- A machine that waits for a key is locked. Whatever it waits through, it is the
machine it was, but for the keys that come up and for the timers, which tick as if its
cycles were ticks only; it executes nothing. The first valid press is delivered to the
register that waits, and the next cycle goes on at the same place, right after the
instruction that waits where a cycle had executed it. Keys that were already down do not
count, a press that is not waited for only marks its key, and no wait ends in any other
way than by a press or a reset. -/
theorem wait_is_locked {m : Machine} {x : Register} (hblocked : m.blocked = some (x.val : Int))
    (threshold : Level) {ops : List Operation} (hops : ∀ op ∈ ops, op.waits = true) :
    let later := m.after threshold ops
    let clock := m.after threshold (ops.flatMap m.ticking)
    later = { m with
      operand := later.operand, keys := later.keys, timers := clock.timers,
      beeps := clock.beeps } ∧
    m.transcript threshold ops = m.transcript threshold (ops.flatMap m.ticking) ∧
    (∀ k, later.isDown k = true ↔
      m.isDown k = true ∧ ∀ offer, .release offer ∈ ops → offer.key? ≠ some k) ∧
    (∀ c, .execute c ∉ m.history ops) ∧
    (∀ offer k, offer.key? = some k →
      later.apply threshold (.press offer) = ⟨later.deliver x k, [], .ok .done⟩ ∧
      (later.deliver x k).cycle =
        (later.deliver x k).prepare.execute (Instruction.decode m.fetch) ∧
      (later.deliver x k).prepare.pc = m.pc) ∧
    (∀ n : Machine, n.blocked = none → n.cycle = m →
      Instruction.decode n.fetch = some (.waitKey x) ∧
      m.pc.toNat = (n.pc.toNat + 2) % 4096) ∧
    (∀ (n : Machine) (y : Register) (k : Key), n.isDown k = true →
      (n.blocked = none → Instruction.decode n.fetch = some (.waitKey y) →
        n.cycle.blocked = some (y.val : Int) ∧ n.cycle.isDown k = true) ∧
      ∀ word, Instruction.ofInt? word = some (.waitKey y) →
        (n.executeWord word).blocked = some (y.val : Int) ∧
        (n.executeWord word).isDown k = true) ∧
    (∀ (n : Machine) offer k, n.blocked = none → offer.key? = some k →
      n.apply threshold (.press offer) = ⟨n.setKey k true, [], .ok .done⟩) ∧
    ∀ (n : Machine) (more : List Operation), n.isBlocked = true →
      (n.after threshold more).isBlocked = false → ∃ op ∈ more, op.wakes := by
  intro later clock
  have hwaiting : m.isBlocked = true := by rw [isBlocked, hblocked]; rfl
  have hkept := after_of_waits hwaiting threshold hops
  change later = _ at hkept
  have hlocked : later.blocked = some (x.val : Int) := by
    rw [hkept]
    exact hblocked
  refine ⟨hkept, (after_ticking hwaiting threshold hops).2, ?_, ?_, ?_, ?_, ?_, ?_, ?_⟩
  · intro k
    exact isDown_after_of_waits hwaiting threshold hops k
  · intro c hc
    cases idles_of_mem_history hwaiting hops hc
  · intro offer k hkey
    refine ⟨apply_press_of_blocked hlocked threshold hkey, ?_, ?_⟩
    · have hfetch : (later.deliver x k).fetch = m.fetch := by rw [hkept]; rfl
      rw [cycle_of_blocked_eq_none rfl, hfetch]
    · rw [pc_prepare, hkept]
      rfl
  · rintro n hfree rfl
    have hword := decode_of_blocked_cycle hfree hblocked
    refine ⟨hword, ?_⟩
    rw [cycle_of_blocked_eq_none hfree, hword, pc_execute_waitKey, pc_prepare]
  · intro n y k hdown
    constructor
    · intro hfree hword
      exact ⟨blocked_cycle_of_waitKey hfree hword,
        (isDown_cycle_of_waitKey hfree hword k).trans hdown⟩
    · intro word hword
      rw [executeWord, hword]
      exact ⟨rfl, hdown⟩
  · intro n offer k hfree hkey
    exact apply_press_of_not_blocked hfree threshold hkey
  · intro n more hn hopen
    exact exists_wakes hn threshold hopen

/-- A wait with one key held from before, which is let up in the course of it. -/
theorem wait_is_locked_with_key_held :
    let m := (initial ⟨.int 600, .int 1, .speaker, ⟨[]⟩⟩).after .info
      [.press (.number (.int 3)), .execute 0xF50A]
    let later := m.after .info
      [.cycle, .tick, .press .nothing, .cycle, .release (.number (.int 3))]
    m.isDown 3 = true ∧ later.isDown 3 = false ∧ later.pc = m.pc ∧
      later.apply .info (.press (.flag true)) = ⟨later.deliver 5 1, [], .ok .done⟩ := by
  intro m later
  have hblocked : m.blocked = some ((5 : Register).val : Int) := by decide +kernel
  have hops : ∀ op ∈ ([.cycle, .tick, .press .nothing, .cycle, .release (.number (.int 3))] :
      List Operation), op.waits = true := by decide
  obtain ⟨hkept, _, hkeys, _, hpress, _⟩ := wait_is_locked hblocked .info hops
  refine ⟨by decide +kernel, ?_, ?_, (hpress (.flag true) 1 rfl).1⟩
  · rw [← Bool.not_eq_true]
    intro hdown
    obtain ⟨_, hreleased⟩ := (hkeys 3).mp hdown
    exact hreleased (.number (.int 3)) (by simp) rfl
  · have hpc := congrArg Machine.pc hkept
    exact hpc

end Machine
end ChipEight

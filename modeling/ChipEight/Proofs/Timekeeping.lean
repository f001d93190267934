import ChipEight.Proofs.WellFormed
import Mathlib.Data.List.DropRight

/-!
# Timekeeping

The timers of a run in closed form. What an action does to the timers is its beat, and
there are few beats. Every tick adds one to the counter of cycles or gives a whole
divider back, so the counter and what it has let through are a remainder and a quotient
of the ticks; the two timers go down by as much as it has let through.
-/

namespace ChipEight

/-- What an action does to the timers. -/
inductive Beat
  | tick
  | decrement
  | clear
  | setDelay (x : Register)
  | setSound (x : Register)
  | rest
  deriving DecidableEq

def Action.beat : Action → Beat
  | tick => .tick
  | decrement => .decrement
  | reset => .clear
  | execute (some (.instruction (.setDelay x))) => .setDelay x
  | execute (some (.instruction (.setSound x))) => .setSound x
  | _ => .rest

/-- A beat that is no rest tells the action. -/
theorem Action.eq_of_beat {a : Action} {b : Beat} (h : a.beat = b) : match b with
    | .tick => a = tick
    | .decrement => a = decrement
    | .clear => a = reset
    | .setDelay x => a = execute (some (.instruction (.setDelay x)))
    | .setSound x => a = execute (some (.instruction (.setSound x)))
    | .rest => True := by
  subst h
  match a with
  | execute (some (.instruction i)) => cases i <;> first | rfl | trivial
  | execute none | execute (some (.compare _ _ _)) | execute (some (.drawRows _ _ _))
  | execute (some (.pointAt _)) | execute (some (.waitFor _)) | execute (some (.store _))
  | execute (some (.load _)) | execute (some (.randomInVain _)) => trivial
  | note _ | trace _ | press _ | release _ | load _ _ | shown | adjust _ => trivial
  | tick | decrement | reset => rfl

namespace Machine

theorem timers_act (m : Machine) {a : Action} (ha : a.adjusts = false) :
    (m.act a).timers = match a.beat with
      | .tick => m.timers.tick m.settings.timerDivider
      | .decrement => m.timers.decrement
      | .clear => Timers.zero
      | .setDelay x => { m.timers with delay := m.register x }
      | .setSound x => { m.timers with sound := m.register x }
      | .rest => m.timers := by
  cases a with
  | execute c =>
    match c with
    | none => rfl
    | some (.instruction i) => cases i <;> rfl
    | some (.compare _ _ _) | some (.drawRows _ _ _) | some (.pointAt _) | some (.waitFor _)
    | some (.randomInVain _) => rfl
    | some (.store last) | some (.load last) =>
      simp only [act, carryOut, call, afterBlock]
      split_ifs <;> rfl
  | tick =>
    rw [act, tick_eq]
    rfl
  | press k =>
    obtain ⟨registers, blocked, hpress⟩ := m.exists_press k
    rw [act, hpress]
    rfl
  | adjust a => cases ha
  | _ => rfl

/-- How many actions of a run have a property, each seen from the machine before it. -/
def tally (p : Machine → Action → Bool) (m : Machine) : List Action → Nat
  | [] => 0
  | a :: as => (p m a).toNat + tally p (m.act a) as

/-- Whether an action is a tick that reaches the divider. -/
def expires (m : Machine) (a : Action) : Bool :=
  match a.beat with
  | .tick => m.timers.isDue m.settings.timerDivider
  | _ => false

/-- Whether an action takes the timers one step further down. -/
def countsDown (m : Machine) (a : Action) : Bool :=
  match a.beat with
  | .tick => m.timers.isDue m.settings.timerDivider
  | .decrement => true
  | _ => false

/-- Whether an action ends a sound that something listens to. -/
def rings (m : Machine) (a : Action) : Bool :=
  m.countsDown a && m.timers.endsSound && m.settings.sound ≠ .absent

/-- How often a sound has been asked for once a run is over: the beeps that were played
and those that were only reported. -/
def soundings (m : Machine) (as : List Action) : Nat :=
  (m.actAll as).beeps + (m.reportAll as).count .beep

section Tally

variable {p q : Machine → Action → Bool}

@[simp] theorem tally_nil (m : Machine) : m.tally p [] = 0 := rfl

@[simp] theorem tally_cons (m : Machine) (a : Action) (as : List Action) :
    m.tally p (a :: as) = (p m a).toNat + (m.act a).tally p as := rfl

theorem tally_congr {as : List Action} (h : ∀ n, ∀ a ∈ as, p n a = q n a) (m : Machine) :
    m.tally p as = m.tally q as := by
  induction as generalizing m with
  | nil => rfl
  | cons a as ih =>
    obtain ⟨hfirst, hrest⟩ : (∀ n, p n a = q n a) ∧ ∀ n, ∀ b ∈ as, p n b = q n b :=
      ⟨fun n => h n a List.mem_cons_self, fun n b hb => h n b (List.mem_cons_of_mem a hb)⟩
    rw [tally_cons, tally_cons, hfirst, ih hrest]

theorem tally_eq_zero {as : List Action} (h : ∀ n, ∀ a ∈ as, p n a = false) (m : Machine) :
    m.tally p as = 0 := by
  induction as generalizing m with
  | nil => rfl
  | cons a as ih =>
    rw [tally_cons, h m a List.mem_cons_self, ih fun n b hb => h n b (List.mem_cons_of_mem a hb)]
    rfl

end Tally

/-! ### The counter of cycles -/

/-- A tick either is counted or gives a whole divider back. -/
theorem counter_act {m : Machine} {d : Nat} (hd : m.settings.timerDivider = .int d)
    (hlt : m.timers.counter < d) {a : Action} (ha : a.adjusts = false)
    (hreset : a.beat ≠ .clear) :
    (m.act a).timers.counter + d * (m.expires a).toNat =
        m.timers.counter + (decide (a.beat = .tick)).toNat ∧
      (m.act a).timers.counter < d := by
  rw [m.timers_act ha]
  cases hbeat : a.beat with
  | tick =>
    simp only [expires, hbeat, hd, Timers.tick, Timers.isDue_int]
    by_cases hdue : (d : Int) ≤ m.timers.counter + 1
    · simp only [hdue, decide_true, Bool.toNat_true, if_true]
      omega
    · simp only [hdue, decide_true, decide_false, Bool.toNat_false, Bool.toNat_true,
        Bool.false_eq_true, if_false]
      omega
  | clear => exact absurd hbeat hreset
  | decrement | setDelay x | setSound x | rest =>
    simpa [expires, hbeat, Timers.decrement] using hlt

/-- The counter and what it has let through, by the ticks of a run. -/
theorem counter_actAll {m : Machine} {d : Nat} (hd : m.settings.timerDivider = .int d)
    (hlt : m.timers.counter < d) {as : List Action}
    (has : ∀ a ∈ as, a.adjusts = false ∧ a.beat ≠ .clear) :
    (m.actAll as).timers.counter + d * m.tally expires as =
        m.timers.counter + as.countP (·.beat = .tick) ∧
      (m.actAll as).timers.counter < d := by
  induction as generalizing m with
  | nil => simpa using hlt
  | cons a as ih =>
    obtain ⟨⟨hadjust, hreset⟩, hrest⟩ := List.forall_mem_cons.mp has
    obtain ⟨hstep, hnext⟩ := counter_act hd hlt hadjust hreset
    have hsettings : (m.act a).settings.timerDivider = .int d := by rw [settings_act, hd]
    obtain ⟨hrun, hlast⟩ := ih hsettings hnext hrest
    refine ⟨?_, hlast⟩
    -- both sides of the step's equation add up along the run
    have hcount : (a :: as).countP (·.beat = .tick) =
        as.countP (·.beat = .tick) + (decide (a.beat = .tick)).toNat := by
      rw [List.countP_cons]
      cases decide (a.beat = .tick) <;> rfl
    rw [actAll_cons, tally_cons, hcount, Nat.mul_add]
    omega

/-! ### The timers -/

/-- A timer that every step of a run takes one further down, and nothing else changes. -/
theorem countDown_actAll {timer : Timers → Byte} {as : List Action}
    (step : ∀ n : Machine, ∀ a ∈ as, timer (n.act a).timers =
      if n.countsDown a then Timers.countDown (timer n.timers) else timer n.timers)
    (m : Machine) :
    (timer (m.actAll as).timers).toNat = (timer m.timers).toNat - m.tally countsDown as := by
  induction as generalizing m with
  | nil => rfl
  | cons a as ih =>
    have hfirst := step m a List.mem_cons_self
    have hrest := ih (fun n b hb => step n b (List.mem_cons_of_mem a hb)) (m.act a)
    rw [actAll_cons, hrest, hfirst, tally_cons]
    cases m.countsDown a with
    | true =>
      rw [if_pos rfl, Timers.countDown_toNat, Bool.toNat_true]
      omega
    | false => simp

/-- Where nothing else sets a timer, it goes down or stays. -/
theorem countDown_act (m : Machine) {a : Action} (ha : a.adjusts = false)
    (hreset : a.beat ≠ .clear) :
    ((∀ x, a.beat ≠ .setDelay x) → (m.act a).timers.delay =
        if m.countsDown a then Timers.countDown m.timers.delay else m.timers.delay) ∧
      ((∀ x, a.beat ≠ .setSound x) → (m.act a).timers.sound =
        if m.countsDown a then Timers.countDown m.timers.sound else m.timers.sound) := by
  rw [m.timers_act ha]
  cases hbeat : a.beat with
  | tick =>
    simp only [countsDown, hbeat, Timers.tick]
    cases m.timers.isDue m.settings.timerDivider <;> exact ⟨fun _ => rfl, fun _ => rfl⟩
  | clear => exact absurd hbeat hreset
  | setDelay x => exact ⟨fun h => absurd rfl (h x), fun _ => by simp [countsDown, hbeat]⟩
  | setSound x => exact ⟨fun _ => by simp [countsDown, hbeat], fun h => absurd rfl (h x)⟩
  | decrement | rest => simp [countsDown, hbeat, Timers.decrement]

theorem delay_actAll {as : List Action} (has : ∀ a ∈ as, a.adjusts = false ∧ a.beat ≠ .clear)
    (hset : ∀ a ∈ as, ∀ x, a.beat ≠ .setDelay x) (m : Machine) :
    (m.actAll as).timers.delay.toNat = m.timers.delay.toNat - m.tally countsDown as := by
  apply countDown_actAll
  intro n a ha
  obtain ⟨hadjust, hreset⟩ := has a ha
  exact (n.countDown_act hadjust hreset).1 (hset a ha)

theorem sound_actAll {as : List Action} (has : ∀ a ∈ as, a.adjusts = false ∧ a.beat ≠ .clear)
    (hset : ∀ a ∈ as, ∀ x, a.beat ≠ .setSound x) (m : Machine) :
    (m.actAll as).timers.sound.toNat = m.timers.sound.toNat - m.tally countsDown as := by
  apply countDown_actAll
  intro n a ha
  obtain ⟨hadjust, hreset⟩ := has a ha
  exact (n.countDown_act hadjust hreset).2 (hset a ha)

/-! ### Beeps -/

theorem beeps_carryOut (m : Machine) (c : Option Call) :
    (m.carryOut c).beeps = m.beeps ∧ m.countsDown (.execute c) = false := by
  match c with
  | none => exact ⟨rfl, rfl⟩
  | some (.instruction i) => cases i <;> exact ⟨rfl, rfl⟩
  | some (.compare _ _ _) | some (.drawRows _ _ _) | some (.pointAt _) | some (.waitFor _)
  | some (.randomInVain _) => exact ⟨rfl, rfl⟩
  | some (.store last) | some (.load last) =>
    refine ⟨?_, rfl⟩
    simp only [carryOut, call, afterBlock]
    split_ifs <;> rfl

theorem beeps_act (m : Machine) (a : Action) :
    (m.act a).beeps = m.beeps + if m.countsDown a then m.beepCount else 0 := by
  cases a with
  | execute c =>
    obtain ⟨hbeeps, hcounts⟩ := m.beeps_carryOut c
    rw [hcounts]
    exact hbeeps
  | tick =>
    rw [act, tick_eq]
    rfl
  | press k =>
    obtain ⟨registers, blocked, hpress⟩ := m.exists_press k
    rw [act, hpress]
    rfl
  | adjust a => cases a <;> rfl
  | _ => rfl

/-- Only the timers report a beep. -/
theorem beep_notMem_processorReport (m : Machine) (a : Action) :
    Message.beep ∉ m.processorReport a := by
  cases a with
  | execute c =>
    match c with
    | none => simp [processorReport, carryOutLog, executeLog]
    | some (.instruction i) =>
      cases i with
      | ret | call _ =>
        simp only [processorReport, carryOutLog, callLog, executeLog]
        split_ifs <;> simp
      | _ => simp [processorReport, carryOutLog, callLog, executeLog]
    | some (.compare _ _ _) | some (.drawRows _ _ _) | some (.pointAt _) | some (.waitFor _)
    | some (.randomInVain _) | some (.store _) | some (.load _) =>
      simp [processorReport, carryOutLog, callLog]
  | _ => simp [processorReport]

theorem timersReport_eq (m : Machine) (a : Action) :
    m.timersReport a = if m.countsDown a then m.decrementTimersLog else [] := by
  cases a with
  | execute c =>
    rw [(m.beeps_carryOut c).2]
    rfl
  | _ => rfl

/-- A step of the timers that ends a sound is a beep, played or reported. -/
theorem soundings_act (m : Machine) (a : Action) :
    (m.act a).beeps + (m.reports a).count .beep = m.beeps + (m.rings a).toNat := by
  have hprocessor : (m.processorReport a).count .beep = 0 :=
    List.count_eq_zero.mpr (m.beep_notMem_processorReport a)
  rw [beeps_act, reports, List.count_append, hprocessor, timersReport_eq, rings]
  cases m.countsDown a with
  | false => simp
  | true =>
    simp only [if_true, beepCount, decrementTimersLog]
    cases m.timers.endsSound with
    | false => simp
    | true => cases m.settings.sound <;> simp

theorem soundings_eq (m : Machine) (as : List Action) :
    m.soundings as = m.beeps + m.tally rings as := by
  induction as generalizing m with
  | nil => rfl
  | cons a as ih =>
    have hstep := m.soundings_act a
    have hrest := ih (m.act a)
    simp only [soundings, actAll_cons, reportAll_cons, List.count_append, tally_cons] at *
    omega

/-- A sound that nothing replaces is asked for once, when the steps of the timers are as
many as it was set to. -/
theorem rings_actAll {as : List Action} (has : ∀ a ∈ as, a.adjusts = false ∧ a.beat ≠ .clear)
    (hset : ∀ a ∈ as, ∀ x, a.beat ≠ .setSound x) (m : Machine) :
    m.tally rings as = if m.settings.sound ≠ .absent ∧ 0 < m.timers.sound.toNat ∧
      m.timers.sound.toNat ≤ m.tally countsDown as then 1 else 0 := by
  induction as generalizing m with
  | nil =>
    have hnot : ¬(m.settings.sound ≠ .absent ∧ 0 < m.timers.sound.toNat ∧
        m.timers.sound.toNat ≤ m.tally countsDown []) := by
      rintro ⟨_, hpos, hle⟩
      exact absurd hle (Nat.not_le.mpr hpos)
    rw [if_neg hnot]
    rfl
  | cons a as ih =>
    obtain ⟨⟨hadjust, hreset⟩, hrest⟩ := List.forall_mem_cons.mp has
    obtain ⟨hfirst, hlater⟩ := List.forall_mem_cons.mp hset
    have hsound := (m.countDown_act hadjust hreset).2 hfirst
    have hends : m.timers.endsSound = decide (m.timers.sound.toNat = 1) := by
      rw [Timers.endsSound]
      apply decide_eq_decide.mpr
      exact BitVec.toNat_inj.symm
    rw [tally_cons, tally_cons, ih hrest hlater, hsound, settings_act, rings, hends]
    by_cases habsent : m.settings.sound = .absent
    · simp [habsent]
    · cases m.countsDown a with
      | false => simp
      | true =>
        simp only [habsent, ne_eq, not_false_eq_true, true_and, if_true, decide_true,
          Timers.countDown_toNat, Bool.true_and, Bool.and_true, Bool.toNat_true]
        by_cases hone : m.timers.sound.toNat = 1
        · simp [hone]
        · simp only [hone, decide_false, Bool.toNat_false, Nat.zero_add]
          split_ifs <;> omega

/-! ### Operations -/

/-- Time passes only in cycles and where an operation is made for it. -/
theorem beat_of_mem_actions {m : Machine} {op : Operation} {a : Action} (h : a ∈ m.actions op) :
    (a.beat = .tick → op = .cycle ∨ op = .tick ∨ ∃ seconds, op = .run seconds) ∧
      (a.beat = .decrement → op = .decrement) ∧ (a.beat = .clear → op = .reset) := by
  have hcause := causes_of_mem_actions h
  refine ⟨?_, ?_, ?_⟩
  · intro hbeat
    cases Action.eq_of_beat hbeat
    cases op with
    | cycle => exact Or.inl rfl
    | tick => exact Or.inr (Or.inl rfl)
    | run seconds => exact Or.inr (Or.inr ⟨seconds, rfl⟩)
    | _ => cases hcause
  · intro hbeat
    cases Action.eq_of_beat hbeat
    cases op with
    | decrement => rfl
    | _ => cases hcause
  · intro hbeat
    cases Action.eq_of_beat hbeat
    cases op with
    | reset => rfl
    | _ => cases hcause

def ticksOf (m : Machine) : Operation → Nat
  | .cycle => 1
  | .tick => 1
  | .run seconds =>
    match m.cyclesFor seconds with
    | .ok count => count.toNat
    | .error _ => 0
  | _ => 0

def ticks (m : Machine) (ops : List Operation) : Nat := (ops.map m.ticksOf).sum

theorem ticks_congr {m n : Machine} (h : m.settings = n.settings) (ops : List Operation) :
    m.ticks ops = n.ticks ops := by
  have hop : m.ticksOf = n.ticksOf := by
    funext op
    cases op with
    | run seconds => simp only [ticksOf, cyclesFor_congr (congrArg Settings.cycleRate h)]
    | _ => rfl
  rw [ticks, hop, ticks]

theorem countP_tick_cycleActions (m : Machine) :
    m.cycleActions.countP (·.beat = .tick) = 1 := by
  unfold cycleActions
  split
  · rfl
  · cases h : Instruction.decode m.fetch with
    | none => rfl
    | some i => cases i <;> rfl

theorem countP_tick_cyclesActions (n : Nat) (m : Machine) :
    (cyclesActions n m).countP (·.beat = .tick) = n := by
  induction n generalizing m with
  | zero => rfl
  | succ n ih =>
    rw [cyclesActions, List.countP_append, countP_tick_cycleActions, ih, Nat.add_comm]

theorem countP_tick_actions (m : Machine) (op : Operation) :
    (m.actions op).countP (·.beat = .tick) = m.ticksOf op := by
  have hnone : (∀ a ∈ m.actions op, a.beat ≠ .tick) →
      (m.actions op).countP (·.beat = .tick) = 0 := by
    intro h
    apply List.countP_eq_zero.mpr
    simpa using h
  cases op with
  | cycle => exact m.countP_tick_cycleActions
  | tick => rfl
  | run seconds =>
    cases h : m.cyclesFor seconds with
    | ok count => simp only [actions, ticksOf, h, countP_tick_cyclesActions]
    | error e => simp [actions, ticksOf, h]
  | _ =>
    apply hnone
    intro a ha htick
    obtain h | h | ⟨_, h⟩ := (beat_of_mem_actions ha).1 htick <;> cases h

theorem countP_tick_history (m : Machine) (ops : List Operation) :
    (m.history ops).countP (·.beat = .tick) = m.ticks ops := by
  induction ops generalizing m with
  | nil => rfl
  | cons op ops ih =>
    have hsettings : (m.actAll (m.actions op)).settings = m.settings := settings_actAll _ _
    rw [history, List.countP_append, countP_tick_actions, ih, ticks_congr hsettings]
    rfl

end Machine

namespace Operation

/-- Everything up to the last reset, and the reset itself. -/
def upToReset (ops : List Operation) : List Operation := ops.rdropWhile (· ≠ .reset)

def sinceReset (ops : List Operation) : List Operation := ops.rtakeWhile (· ≠ .reset)

theorem upToReset_append_sinceReset (ops : List Operation) :
    upToReset ops ++ sinceReset ops = ops :=
  List.rdropWhile_append_rtakeWhile

theorem ne_reset_of_mem_sinceReset {ops : List Operation} {op : Operation}
    (h : op ∈ sinceReset ops) : op ≠ .reset := by
  have hne := List.mem_rtakeWhile_imp h
  exact of_decide_eq_true hne

theorem upToReset_eq_nil_or_append (ops : List Operation) :
    upToReset ops = [] ∨ ∃ before, upToReset ops = before ++ [.reset] := by
  by_cases hnil : upToReset ops = []
  · exact Or.inl hnil
  · refine Or.inr ⟨(upToReset ops).dropLast, ?_⟩
    have hlast : ¬(upToReset ops).getLast hnil ≠ .reset := by
      intro hne
      exact List.rdropWhile_last_not (· ≠ Operation.reset) ops hnil (decide_eq_true hne)
    rw [← not_not.mp hlast, List.dropLast_append_getLast]

end Operation

namespace Machine

theorem after_append (threshold : Level) (m : Machine) (ops more : List Operation) :
    m.after threshold (ops ++ more) = (m.after threshold ops).after threshold more :=
  List.foldl_append

theorem counter_upToReset {m : Machine} (h : m.timers.counter = 0) (threshold : Level)
    (ops : List Operation) :
    (m.after threshold (Operation.upToReset ops)).timers.counter = 0 := by
  obtain hnil | ⟨before, hbefore⟩ := Operation.upToReset_eq_nil_or_append ops
  · rw [hnil]
    exact h
  · rw [hbefore, after_append]
    rfl

theorem beat_of_mem_history {m : Machine} {ops : List Operation}
    (h : ∀ op ∈ ops, op.adjusts = false ∧ op ≠ .reset) :
    ∀ a ∈ m.history ops, a.adjusts = false ∧ a.beat ≠ .clear := by
  refine forall_mem_history ?_ h
  rintro n op a ⟨hadjust, hreset⟩ ha
  exact ⟨adjusts_of_mem_actions hadjust ha, fun hb => hreset ((beat_of_mem_actions ha).2.2 hb)⟩

theorem counter_after {m : Machine} {d : Nat} (hd : m.settings.timerDivider = .int d)
    (hlt : m.timers.counter < d) (threshold : Level) {ops : List Operation}
    (hops : ∀ op ∈ ops, op.adjusts = false ∧ op ≠ .reset) :
    (m.after threshold ops).timers.counter = (m.timers.counter + m.ticks ops) % d ∧
      m.tally expires (m.history ops) = (m.timers.counter + m.ticks ops) / d := by
  obtain ⟨hsum, hless⟩ := counter_actAll hd hlt (beat_of_mem_history (m := m) hops)
  rw [countP_tick_history] at hsum
  have hunique := (Nat.div_mod_unique (Nat.zero_lt_of_lt hlt)).mpr ⟨hsum, hless⟩
  rw [after_eq_actAll]
  exact ⟨hunique.2.symm, hunique.1.symm⟩

/-- Where time passes by ticks only, the timers take the divider's steps. -/
theorem tally_countsDown_eq {m : Machine} {d : Nat} (hd : m.settings.timerDivider = .int d)
    (hlt : m.timers.counter < d) (threshold : Level) {ops : List Operation}
    (hops : ∀ op ∈ ops, op.adjusts = false ∧ op ≠ .decrement ∧ op ≠ .reset) :
    m.tally countsDown (m.history ops) = (m.timers.counter + m.ticks ops) / d := by
  have hresets : ∀ op ∈ ops, op.adjusts = false ∧ op ≠ .reset :=
    fun op hop => ⟨(hops op hop).1, (hops op hop).2.2⟩
  have hticks : ∀ a ∈ m.history ops, a.beat ≠ .decrement := by
    refine forall_mem_history ?_ hops
    rintro n op a ⟨_, hdecrement, _⟩ ha hb
    exact hdecrement ((beat_of_mem_actions ha).2.1 hb)
  rw [← (counter_after hd hlt threshold hresets).2]
  apply tally_congr
  intro n a ha
  have hne := hticks a ha
  cases hbeat : a.beat with
  | decrement => exact absurd hbeat hne
  | _ => simp [countsDown, expires, hbeat]

/-- In a machine with a whole divider the counter is the remainder of the ticks since the
last reset, and the divider has taken the timers down by the quotient. From any machine on,
as long as nothing else sets a timer, it goes down by the quotient, and the sound is asked
for once where it has come to its end. The registers have to hold bytes for it: a negative
number, which only a direct call can load, would not stop at zero as a timer. -/
theorem timers_keep_time {settings : Settings} {d : Nat} (hd : settings.timerDivider = .int d)
    (hpos : 0 < d) (threshold : Level) {ops : List Operation}
    (hops : ∀ op ∈ ops, op.adjusts = false ∧ op.storesBytes = true) :
    ∃ start, make? settings = .ok start ∧
      let origin := start.after threshold (Operation.upToReset ops)
      let now := start.after threshold ops
      let since := Operation.sinceReset ops
      now.timers.counter = start.ticks since % d ∧
      origin.tally expires (origin.history since) = start.ticks since / d ∧
      ∀ more : List Operation,
        (∀ op ∈ more, op.adjusts = false ∧ op.storesBytes = true ∧
          op ≠ .decrement ∧ op ≠ .reset) →
        let later := now.after threshold more
        let steps := (now.timers.counter + start.ticks more) / d
        ((∀ x, .execute (some (.instruction (.setDelay x))) ∉ now.history more) →
          later.timers.delay.toNat = now.timers.delay.toNat - steps) ∧
        ((∀ x, .execute (some (.instruction (.setSound x))) ∉ now.history more) →
          later.timers.sound.toNat = now.timers.sound.toNat - steps ∧
          now.soundings (now.history more) = now.beeps +
            if settings.sound ≠ .absent ∧ 0 < now.timers.sound.toNat ∧
              now.timers.sound.toNat ≤ steps then 1 else 0) := by
  refine ⟨initial settings, make?_eq_ok hd (by exact_mod_cast hpos), ?_⟩
  intro origin now since
  have horigin : origin.settings = (initial settings).settings := settings_after threshold _ _
  have hnow : now.settings = (initial settings).settings := settings_after threshold _ _
  have hzero : origin.timers.counter = 0 := counter_upToReset rfl threshold ops
  have hsince : ∀ op ∈ since, op.adjusts = false ∧ op ≠ .reset := by
    intro op hop
    have hmem : op ∈ ops := by
      rw [← Operation.upToReset_append_sinceReset ops]
      exact List.mem_append_right _ hop
    exact ⟨(hops op hmem).1, Operation.ne_reset_of_mem_sinceReset hop⟩
  have hjoin : now = origin.after threshold since := by
    rw [← after_append, Operation.upToReset_append_sinceReset]
  obtain ⟨hcounter, hexpires⟩ := counter_after (horigin ▸ hd) (hzero ▸ hpos) threshold hsince
  rw [hzero, Nat.zero_add, ticks_congr horigin] at hcounter hexpires
  rw [← hjoin] at hcounter
  refine ⟨hcounter, hexpires, ?_⟩
  intro more hall later steps
  have hmore : ∀ op ∈ more, op.adjusts = false ∧ op ≠ .decrement ∧ op ≠ .reset := by
    intro op hop
    obtain ⟨hadjust, _, hothers⟩ := hall op hop
    exact ⟨hadjust, hothers⟩
  have hless : now.timers.counter < d := by
    rw [hcounter]
    exact Nat.mod_lt _ hpos
  have hsteps : now.tally countsDown (now.history more) = steps := by
    rw [tally_countsDown_eq (hnow ▸ hd) hless threshold hmore, ticks_congr hnow]
  have hactions : ∀ a ∈ now.history more, a.adjusts = false ∧ a.beat ≠ .clear :=
    beat_of_mem_history fun op hop => ⟨(hmore op hop).1, (hmore op hop).2.2⟩
  have hlater : later = now.actAll (now.history more) := after_eq_actAll threshold now more
  rw [hlater, ← hsteps]
  constructor
  · intro hset
    apply delay_actAll hactions
    intro a ha x hbeat
    cases Action.eq_of_beat hbeat
    exact hset x ha
  · intro hset
    have hkept : ∀ a ∈ now.history more, ∀ x, a.beat ≠ .setSound x := by
      intro a ha x hbeat
      cases Action.eq_of_beat hbeat
      exact hset x ha
    refine ⟨sound_actAll hactions hkept now, ?_⟩
    rw [soundings_eq, rings_actAll hactions hkept, hnow]
    rfl

/-- A sound of three steps under a divider of two, one tick after it was set. -/
theorem timers_keep_time_at_divider_two :
    ∃ start, make? ⟨.int 600, .int 2, .speaker, ⟨[]⟩⟩ = .ok start ∧
      let now := start.after .info [.execute 0x6003, .reset, .execute 0x6003, .execute 0xF018, .tick]
      let more : List Operation := [.tick, .tick, .cycle, .press (.flag true), .tick, .tick]
      now.timers.counter = 1 ∧ (now.after .info more).timers.sound.toNat = 0 ∧
        now.soundings (now.history more) = 1 := by
  have hops : ∀ op ∈ ([.execute 0x6003, .reset, .execute 0x6003, .execute 0xF018, .tick] :
      List Operation), op.adjusts = false ∧ op.storesBytes = true := by decide
  have hmore : ∀ op ∈ ([.tick, .tick, .cycle, .press (.flag true), .tick, .tick] :
      List Operation), op.adjusts = false ∧ op.storesBytes = true ∧
        op ≠ .decrement ∧ op ≠ .reset := by decide
  have hd : (⟨.int 600, .int 2, .speaker, ⟨[]⟩⟩ : Settings).timerDivider = .int (2 : Nat) := rfl
  obtain ⟨start, hmake, hcounter, _, hfrom⟩ := timers_keep_time hd (by decide) .info hops
  cases hmake
  obtain ⟨_, hsound⟩ := hfrom _ hmore
  obtain ⟨hzero, honce⟩ := hsound (by decide +kernel)
  exact ⟨_, rfl, hcounter, hzero.trans (by decide +kernel), honce.trans (by decide +kernel)⟩

end Machine
end ChipEight

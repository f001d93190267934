import ChipEight.Proofs.Likeness

/-!
# Isolation of the timers

The timers, the sound and the reports of a machine reach the rest of it in one place only,
where the delay timer is read into a register. As long as that is not done, machines whose
timers run and sound in different ways stay the same in everything else.
-/

namespace ChipEight

def Action.readsDelay : Action → Bool
  | execute (some (.instruction (.readDelay _))) => true
  | _ => false

namespace Machine

/-- Two machines that differ at most in the divider and the place where beeps go, in the
timers with their counter, and in the count of beeps. -/
def SameButTimers (m n : Machine) : Prop :=
  ∃ divider sound timers beeps, n =
    { m with
      settings := { m.settings with timerDivider := divider, sound := sound }
      timers := timers
      beeps := beeps }

namespace SameButTimers

variable {m n : Machine}

theorem alike (h : m.SameButTimers n) : Alike m n := by
  obtain ⟨divider, sound, timers, beeps, rfl⟩ := h
  exact ⟨rfl, rfl, rfl, rfl⟩

theorem carryOut (h : m.SameButTimers n) {c : Option Call}
    (hc : (Action.execute c).readsDelay = false) :
    (m.carryOut c).SameButTimers (n.carryOut c) := by
  obtain ⟨divider, sound, timers, beeps, rfl⟩ := h
  match c with
  | none => exact ⟨divider, sound, timers, beeps, rfl⟩
  | some (.instruction i) =>
    cases i with
    | readDelay x => cases hc
    | setDelay x => exact ⟨divider, sound, { timers with delay := m.register x }, beeps, rfl⟩
    | setSound x => exact ⟨divider, sound, { timers with sound := m.register x }, beeps, rfl⟩
    | _ => exact ⟨divider, sound, timers, beeps, rfl⟩
  | some (.compare _ _ _) | some (.drawRows _ _ _) | some (.pointAt _) | some (.waitFor _)
  | some (.randomInVain _) => exact ⟨divider, sound, timers, beeps, rfl⟩
  | some (.store last) | some (.load last) =>
    simp only [Machine.carryOut, call, afterBlock]
    split_ifs <;> exact ⟨divider, sound, timers, beeps, rfl⟩

theorem tick (h : m.SameButTimers n) : m.tick.SameButTimers n.tick := by
  obtain ⟨divider, sound, timers, beeps, rfl⟩ := h
  rw [tick_eq, tick_eq]
  exact ⟨_, _, _, _, rfl⟩

theorem press (h : m.SameButTimers n) (k : Key) : (m.press k).SameButTimers (n.press k) := by
  obtain ⟨registers, blocked, hpress⟩ := m.exists_press_of_same k
  obtain ⟨divider, sound, timers, beeps, rfl⟩ := h
  rw [hpress m rfl rfl]
  exact ⟨divider, sound, timers, beeps, hpress _ rfl rfl⟩

theorem adjust (h : m.SameButTimers n) (b : Adjustment) :
    (m.adjust b).SameButTimers (n.adjust b) := by
  obtain ⟨divider, sound, timers, beeps, rfl⟩ := h
  cases b <;> exact ⟨_, _, _, _, rfl⟩

theorem act (h : m.SameButTimers n) {a : Action} (ha : a.readsDelay = false) :
    (m.act a).SameButTimers (n.act a) := by
  cases a with
  | execute c => exact h.carryOut ha
  | tick => exact h.tick
  | press k => exact h.press k
  | adjust b => exact h.adjust b
  | note _ | trace _ | decrement | release _ | reset | load _ _ | shown =>
    obtain ⟨divider, sound, timers, beeps, rfl⟩ := h
    exact ⟨_, _, _, _, rfl⟩

theorem processorReport (h : m.SameButTimers n) (a : Action) :
    m.processorReport a = n.processorReport a := by
  obtain ⟨divider, sound, timers, beeps, rfl⟩ := h
  exact processorReport_congr rfl rfl rfl a

end SameButTimers

theorem warnings_timersReport (m : Machine) (a : Action) :
    ((m.timersReport a).filter fun e => e.level = .warning) = [] := by
  cases a with
  | tick =>
    simp only [timersReport, tickLog, decrementTimersLog]
    split_ifs <;> rfl
  | decrement =>
    simp only [timersReport, decrementTimersLog]
    split_ifs <;> rfl
  | _ => rfl

theorem sameButTimers_bisimulation :
    Bisimulation (fun a => a.readsDelay = false) (fun e => e.level = .warning)
      SameButTimers where
  alike := SameButTimers.alike
  act := by
    intro m n a ha h
    exact h.act ha
  reports := by
    intro m n a _ h
    rw [reports, reports, List.filter_append, List.filter_append, warnings_timersReport,
      warnings_timersReport, h.processorReport]

/-- As long as the delay timer is not read, machines with timers, sounds and thresholds of
their own stay the same but for the timers, and answer and warn alike. -/
theorem timers_stay_apart {m n : Machine} (h : m.SameButTimers n) {threshold threshold' : Level}
    (hwarns : Level.warning.passes threshold = true)
    (hwarns' : Level.warning.passes threshold' = true) {ops : List Operation} {op : Operation}
    (hread : ∀ a ∈ m.history (ops ++ [op]), a.readsDelay = false) :
    let o := (m.after threshold ops).apply threshold op
    let o' := (n.after threshold' ops).apply threshold' op
    o.machine.SameButTimers o'.machine ∧ o.answer = o'.answer ∧
      (o.log.filter fun e => e.level = .warning) = o'.log.filter fun e => e.level = .warning := by
  have hbisim := sameButTimers_bisimulation
  rw [history_append] at hread
  obtain ⟨hbefore, hlast⟩ := List.forall_mem_append.mp hread
  rw [← after_eq_actAll threshold, history, history, List.append_nil] at hlast
  have hsame := hbisim.after h threshold threshold' ops hbefore
  have hpass : ∀ e : Message, decide (e.level = .warning) = true →
      e.level.passes threshold = e.level.passes threshold' := by
    intro e he
    rw [of_decide_eq_true he, hwarns, hwarns']
  refine ⟨hbisim.apply hsame threshold threshold' op hlast, ?_,
    hbisim.log hsame threshold threshold' hpass op hlast⟩
  apply hsame.alike.answer threshold threshold' op
  intro _
  obtain ⟨divider, sound, timers, beeps, hn⟩ := hsame
  rw [hn]
  rfl

/-- A warning after two ticks, with a sound that is played at divider one and is not even
there at divider seven. -/
theorem timers_stay_apart_at_two_dividers :
    let m := { initial ⟨.int 600, .int 1, .speaker, ⟨[5]⟩⟩ with timers := ⟨9, 2, 0⟩ }
    let n := { initial ⟨.int 600, .int 7, .absent, ⟨[5]⟩⟩ with timers := ⟨4, 1, 6⟩ }
    let o := (m.after .debug [.tick, .execute 0xC0FF, .tick]).apply .debug (.execute 0x00EE)
    let o' := (n.after .warning [.tick, .execute 0xC0FF, .tick]).apply .warning (.execute 0x00EE)
    o.machine.beeps ≠ o'.machine.beeps ∧ o.machine.SameButTimers o'.machine ∧
      o.answer = o'.answer ∧ o'.log = [.returnWithoutCall 0x202] ∧
      (o.log.filter fun e => e.level = .warning) = o'.log.filter fun e => e.level = .warning := by
  intro m n o o'
  have hmn : m.SameButTimers n := ⟨.int 7, .absent, ⟨4, 1, 6⟩, 0, rfl⟩
  have hread : ∀ a ∈ m.history ([.tick, .execute 0xC0FF, .tick] ++ [.execute 0x00EE]),
      a.readsDelay = false := by decide +kernel
  have hdebug : Level.warning.passes .debug = true := rfl
  have hwarning : Level.warning.passes .warning = true := rfl
  obtain ⟨hmachine, hanswer, hlog⟩ := timers_stay_apart hmn hdebug hwarning hread
  exact ⟨by decide +kernel, hmachine, hanswer, by decide +kernel, hlog⟩

end Machine
end ChipEight

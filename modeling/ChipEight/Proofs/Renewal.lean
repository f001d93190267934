import ChipEight.Proofs.Likeness
import ChipEight.Proofs.WellFormed
import Mathlib.Data.List.Rotate

/-!
# Renewal

A reset forgets everything but two counts, those of the beeps and of the random bytes. A
machine that was reset and a new one that starts with the same random byte go on in the
same way, the one counting on from where the other starts at zero.
-/

namespace ChipEight

namespace RandomScript

def startingAt (s : RandomScript) (n : Nat) : RandomScript := ⟨s.bytes.rotate n⟩

theorem byte_startingAt (s : RandomScript) (n k : Nat) :
    (s.startingAt n).byte k = s.byte (n + k) := by
  unfold byte startingAt
  rw [List.length_rotate]
  by_cases hnil : s.bytes = []
  · simp [hnil]
  · have hlt : k % s.bytes.length < s.bytes.length :=
      Nat.mod_lt _ (List.length_pos_of_ne_nil hnil)
    rw [List.getElem?_rotate hlt, Nat.mod_add_mod, Nat.add_comm]

end RandomScript

namespace Settings

def startingAt (s : Settings) (n : Nat) : Settings := { s with random := s.random.startingAt n }

end Settings

namespace Machine

/-- A machine that has the settings of another and counts on from it. -/
def continued (n origin : Machine) : Machine :=
  { n with
    settings := origin.settings
    beeps := origin.beeps + n.beeps
    randomCount := origin.randomCount + n.randomCount }

/-- A machine that goes on as one does that starts with the next random byte. -/
def Continues (origin m n : Machine) : Prop :=
  n.settings = origin.settings.startingAt origin.randomCount ∧ m = n.continued origin

theorem continues_reset (m : Machine) :
    m.Continues m.reset (initial (m.settings.startingAt m.randomCount)) :=
  ⟨rfl, rfl⟩

section Actions

variable {origin n : Machine}

theorem carryOut_continued (h : n.settings = origin.settings.startingAt origin.randomCount)
    (c : Option Call) : (n.continued origin).carryOut c = (n.carryOut c).continued origin := by
  match c with
  | none => rfl
  | some (.instruction i) =>
    cases i with
    | random x b =>
      have hbyte : n.settings.random.byte n.randomCount =
          origin.settings.random.byte (origin.randomCount + n.randomCount) := by
        rw [h]
        exact RandomScript.byte_startingAt _ _ _
      simp only [carryOut, call, execute, perform, hbyte]
      rfl
    | _ => rfl
  | some (.compare _ _ _) | some (.drawRows _ _ _) | some (.pointAt _) | some (.waitFor _)
  | some (.randomInVain _) => rfl
  | some (.store last) | some (.load last) =>
    simp only [carryOut, call, afterBlock]
    split_ifs <;> rfl

theorem beepCount_continued (h : n.settings = origin.settings.startingAt origin.randomCount) :
    (n.continued origin).beepCount = n.beepCount := by
  rw [beepCount, beepCount, h]
  rfl

theorem tick_continued (h : n.settings = origin.settings.startingAt origin.randomCount) :
    (n.continued origin).tick = n.tick.continued origin := by
  have hdivider : n.settings.timerDivider = origin.settings.timerDivider := by
    rw [h]
    rfl
  rw [tick_eq, tick_eq, beepCount_continued h, hdivider]
  simp only [continued, Nat.add_assoc]
  rfl

theorem press_continued (k : Key) :
    (n.continued origin).press k = (n.press k).continued origin := by
  obtain ⟨registers, blocked, hpress⟩ := n.exists_press_of_same k
  rw [hpress n rfl rfl, hpress (n.continued origin) rfl rfl]
  rfl

theorem act_continued (h : n.settings = origin.settings.startingAt origin.randomCount)
    (a : Action) : (n.continued origin).act a = (n.act a).continued origin := by
  cases a with
  | execute c => exact carryOut_continued h c
  | tick => exact tick_continued h
  | decrement =>
    simp only [act, decrementTimers, beepCount_continued h]
    simp only [continued, Nat.add_assoc]
  | press k => exact press_continued k
  | adjust b => cases b <;> rfl
  | note _ | trace _ | release _ | reset | load _ _ | shown => rfl

theorem reports_continued (h : n.settings = origin.settings.startingAt origin.randomCount)
    (a : Action) : (n.continued origin).reports a = n.reports a := by
  have htimers : (n.continued origin).timersReport a = n.timersReport a := by
    refine timersReport_congr ?_ ?_ ?_ a
    · rfl
    · rw [h]
      rfl
    · rw [h]
      rfl
  have hprocessor : (n.continued origin).processorReport a = n.processorReport a :=
    processorReport_congr rfl rfl rfl a
  rw [reports, reports, htimers, hprocessor]

end Actions

theorem continues_bisimulation (origin : Machine) :
    Bisimulation (fun _ => True) (fun _ => true) origin.Continues where
  alike := by
    rintro m n ⟨h, rfl⟩
    refine ⟨?_, rfl, rfl, rfl⟩
    rw [h]
    rfl
  act := by
    rintro m n a - ⟨h, rfl⟩
    refine ⟨?_, act_continued h a⟩
    rw [settings_act, h]
  reports := by
    rintro m n a - ⟨h, rfl⟩
    rw [reports_continued h]

end Machine

def Outcome.continued (o : Outcome) (origin : Machine) : Outcome :=
  ⟨o.machine.continued origin, o.log, o.answer⟩

namespace Machine

theorem Continues.apply {origin m n : Machine} (h : origin.Continues m n) (threshold : Level)
    (op : Operation) :
    m.apply threshold op = (n.apply threshold op).continued origin := by
  have hbisim := continues_bisimulation origin
  have hmachine := (hbisim.apply h threshold threshold op fun _ _ => trivial).2
  have hlog := hbisim.log_eq h threshold op fun _ _ => trivial
  have hanswer := (hbisim.alike h).answer threshold threshold op fun _ => by
    rw [h.2]
    rfl
  rw [Outcome.continued, ← hmachine, ← hlog, ← hanswer]

/-- Whatever a new machine has been through, a reset is accepted and silent and makes it a
new machine again, but for the counts of its beeps and of its random bytes. From then on
every operation does, reports and answers what it would on a new machine with the same
settings whose random bytes start with the next one. Calls that load a number that is no
byte are in neither history. -/
theorem reset_erases_history {settings : Settings} {d : Int}
    (hd : settings.timerDivider = .int d) (hpos : 1 ≤ d) (threshold : Level)
    {ops : List Operation} (_hops : ∀ op ∈ ops, op.storesBytes = true) :
    ∃ start, make? settings = .ok start ∧
      let before := start.after threshold ops
      let renewed := { start with beeps := before.beeps, randomCount := before.randomCount }
      before.apply threshold .reset = ⟨renewed, [], .ok .done⟩ ∧
      ∃ fresh, make? (settings.startingAt before.randomCount) = .ok fresh ∧
        ∀ (more : List Operation) (op : Operation),
          (∀ o ∈ more ++ [op], o.storesBytes = true) →
          (renewed.after threshold more).apply threshold op =
            ((fresh.after threshold more).apply threshold op).continued before := by
  refine ⟨initial settings, make?_eq_ok hd hpos, ?_⟩
  intro before renewed
  have hsettings : before.settings = settings := settings_after threshold _ ops
  have hreset : before.reset = renewed := by
    rw [reset, hsettings]
  refine ⟨?_, initial (settings.startingAt before.randomCount), make?_eq_ok hd hpos, ?_⟩
  · rw [← hreset]
    rfl
  · intro more op _
    have hstart : before.Continues renewed (initial (settings.startingAt before.randomCount)) := by
      rw [← hreset, ← hsettings]
      exact continues_reset before
    have hlater := (continues_bisimulation before).after hstart threshold threshold more
      fun _ _ => trivial
    exact hlater.apply threshold op

/-- A reset in the middle of a wait, with a key down and a glyph of the font overwritten. -/
theorem reset_erases_history_while_waiting :
    let start := initial ⟨.int 600, .int 3, .speaker, ⟨[7, 9]⟩⟩
    let before := start.after .debug
      [.press (.flag true), .execute 0xC0FF, .execute 0xF055, .tick, .execute 0xF10A]
    before.isDown 1 = true ∧ before.memory.read 0 = 7 ∧ before.isBlocked = true ∧
      before.apply .debug .reset = ⟨{ start with randomCount := 1 }, [], .ok .done⟩ := by
  intro start before
  have hd : (⟨.int 600, .int 3, .speaker, ⟨[7, 9]⟩⟩ : Settings).timerDivider = .int 3 := rfl
  have hops : ∀ op ∈ ([.press (.flag true), .execute 0xC0FF, .execute 0xF055, .tick,
      .execute 0xF10A] : List Operation), op.storesBytes = true := by decide
  obtain ⟨_, hmake, hreset, _⟩ := reset_erases_history hd (by decide) .debug hops
  cases hmake
  have hbeeps : before.beeps = 0 := by decide +kernel
  have hcount : before.randomCount = 1 := by decide +kernel
  rw [hbeeps, hcount] at hreset
  exact ⟨by decide +kernel, by decide +kernel, by decide +kernel, hreset⟩

end Machine
end ChipEight

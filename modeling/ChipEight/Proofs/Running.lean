import ChipEight.Proofs.Exactness
import ChipEight.Proofs.Waiting

/-!
# Running

A cycle does what a tick and the execution of the next word do, one after the other. A run
is nothing but cycles, as many as it answers, so two runs add up to one.
-/

namespace ChipEight
namespace Machine

theorem fetch_tick (m : Machine) : m.tick.fetch = m.fetch := by
  rw [tick_eq]
  rfl

/-- The word is fetched before the timers tick, and it makes no difference. -/
theorem cycle_eq_tick (m : Machine) : m.cycle =
    if m.isBlocked then m.tick.withOperand m.fetch.toNat
    else m.tick.executeWord m.tick.fetch.toNat := by
  have hprepare : m.prepare = m.tick.withOperand m.fetch.toNat := m.tick_withOperand _
  simp only [cycle, isBlocked_prepare]
  by_cases hblocked : m.isBlocked = true
  · rw [if_pos hblocked, if_pos hblocked, hprepare]
  · rw [if_neg hblocked, if_neg hblocked, fetch_tick, executeWord, Instruction.ofInt?_toNat,
      hprepare]

theorem cyclesActions_add (a b : Nat) (m : Machine) :
    cyclesActions (a + b) m = cyclesActions a m ++ cyclesActions b (cycles a m) := by
  induction a generalizing m with
  | zero =>
    rw [Nat.zero_add]
    rfl
  | succ a ih =>
    rw [Nat.succ_add, cyclesActions, ih, cyclesActions, cycles, List.append_assoc]

/-- Cycles asked for one by one have the actions of as many in one run. -/
theorem history_replicate_cycle (n : Nat) (m : Machine) :
    m.history (List.replicate n .cycle) = cyclesActions n m := by
  induction n generalizing m with
  | zero => rfl
  | succ n ih =>
    rw [List.replicate_succ, history, actions, ih, cyclesActions, cycle_eq_actAll]

section Runs

variable {m : Machine} {seconds : Number} {count rate : Int} {threshold : Level}

theorem actions_run (h : m.cyclesFor seconds = .ok count) :
    m.actions (.run seconds) = cyclesActions count.toNat m := by
  simp only [actions, h]

theorem answer_run (h : m.cyclesFor seconds = .ok count) :
    (m.apply threshold (.run seconds)).answer = .ok (.integer count) := by
  simp only [apply, outcome, h]

theorem machine_run (h : m.cyclesFor seconds = .ok count) :
    (m.apply threshold (.run seconds)).machine = cycles count.toNat m := by
  have hmachine := outcome_machine threshold m (.run seconds)
  rwa [actions_run h, ← cycles_eq_actAll] at hmachine

theorem log_run (h : m.cyclesFor seconds = .ok count) :
    (m.apply threshold (.run seconds)).log =
      (m.reportAll (cyclesActions count.toNat m)).filter fun e => e.level.passes threshold := by
  rw [apply_log, actions_run h]

theorem run_eq_replicate (h : m.cyclesFor seconds = .ok count) :
    (m.apply threshold (.run seconds)).machine =
        m.after threshold (List.replicate count.toNat .cycle) ∧
      (m.apply threshold (.run seconds)).log =
        m.transcript threshold (List.replicate count.toNat .cycle) := by
  constructor
  · rw [machine_run h, after_eq_actAll, history_replicate_cycle, cycles_eq_actAll]
  · rw [log_run h, transcript_eq_reportAll, history_replicate_cycle]

theorem run_add {a b both : Number} {c d : Int} (ha : m.cyclesFor a = .ok c)
    (hb : m.cyclesFor b = .ok d) (hboth : m.cyclesFor both = .ok (c + d)) (hc : 0 ≤ c)
    (hd : 0 ≤ d) :
    let first := m.apply threshold (.run a)
    let second := first.machine.apply threshold (.run b)
    let whole := m.apply threshold (.run both)
    second.machine = whole.machine ∧ first.log ++ second.log = whole.log ∧
      second.answer = .ok (.integer d) := by
  intro first second whole
  have hbetween : first.machine = m.actAll (cyclesActions c.toNat m) := by
    rw [← cycles_eq_actAll]
    exact machine_run ha
  have hlater : first.machine.cyclesFor b = .ok d := by
    refine (cyclesFor_congr ?_ b).trans hb
    rw [hbetween, settings_actAll]
  have hactions : cyclesActions (c + d).toNat m =
      cyclesActions c.toNat m ++ cyclesActions d.toNat first.machine := by
    rw [Int.toNat_add hc hd, cyclesActions_add, cycles_eq_actAll, ← hbetween]
  refine ⟨?_, ?_, answer_run hlater⟩
  · calc second.machine = first.machine.actAll (cyclesActions d.toNat first.machine) := by
          rw [← cycles_eq_actAll]
          exact machine_run hlater
      _ = m.actAll (cyclesActions (c + d).toNat m) := by rw [hactions, actAll_append, ← hbetween]
      _ = whole.machine := by
          rw [← cycles_eq_actAll]
          exact (machine_run hboth).symm
  · refine Eq.trans ?_ (log_run hboth).symm
    rw [hactions, reportAll_append, List.filter_append, ← hbetween]
    exact congrArg₂ _ (log_run ha) (log_run hlater)

/-- At a rate that is not negative, a time that is not negative has the product as its
number of cycles, also if it is zero. -/
theorem cyclesFor_of_nonneg {s : Int} (hrate : m.settings.cycleRate = .int rate)
    (hs : 0 ≤ s) (hr : 0 ≤ rate) (hsize : s * rate ≤ 2 ^ 52) :
    m.cyclesFor (.int s) = .ok (s * rate) := by
  have habs : |s * rate| ≤ 2 ^ 52 := by rwa [abs_of_nonneg (mul_nonneg hs hr)]
  rw [cyclesFor_int hrate habs]
  rcases hs.lt_or_eq with hpos | rfl
  · rw [if_pos hpos]
  · rw [if_neg (lt_irrefl 0), zero_mul]

end Runs

/-- A cycle leaves the machine that a tick leaves and, unless the machine waits, the next
word executed after it. A run of whole seconds at a whole rate answers their product and
takes that many cycles, none if it is negative; and two runs one after the other leave the
machine and the messages of a run of both times, however the machine waits in between. -/
theorem runs_add_up (m : Machine) (threshold : Level) :
    m.after threshold [.cycle] =
      (if m.isBlocked then (m.after threshold [.tick]).withOperand m.fetch.toNat
        else m.after threshold [.tick, .execute m.tick.fetch.toNat]) ∧
    ∀ rate : Int, m.settings.cycleRate = .int rate →
      (∀ seconds : Int, |seconds * rate| ≤ 2 ^ 52 →
        let run := m.apply threshold (.run (.int seconds))
        let count := if 0 < seconds then seconds * rate else 0
        let single := List.replicate (max 0 count).toNat Operation.cycle
        run.answer = .ok (.integer count) ∧ run.machine = m.after threshold single ∧
          run.log = m.transcript threshold single) ∧
      ∀ a b : Int, 0 ≤ a → 0 ≤ b → 0 ≤ rate → (a + b) * rate ≤ 2 ^ 52 →
        let first := m.apply threshold (.run (.int a))
        let second := first.machine.apply threshold (.run (.int b))
        let whole := m.apply threshold (.run (.int (a + b)))
        second.machine = whole.machine ∧ first.log ++ second.log = whole.log ∧
          ∃ c d : Int, first.answer = .ok (.integer c) ∧ second.answer = .ok (.integer d) ∧
            whole.answer = .ok (.integer (c + d)) := by
  refine ⟨m.cycle_eq_tick, ?_⟩
  intro rate hrate
  constructor
  · intro seconds hsize run count single
    have hcount : m.cyclesFor (.int seconds) = .ok count := cyclesFor_int hrate hsize
    have htoNat : (max 0 count).toNat = count.toNat := by omega
    simp only [single, htoNat]
    exact ⟨answer_run hcount, run_eq_replicate hcount⟩
  · intro a b ha hb hr hsize first second whole
    have hc : 0 ≤ a * rate := mul_nonneg ha hr
    have hd : 0 ≤ b * rate := mul_nonneg hb hr
    have hsum : (a + b) * rate = a * rate + b * rate := add_mul a b rate
    have hfirst := cyclesFor_of_nonneg hrate ha hr (by omega)
    have hsecond := cyclesFor_of_nonneg hrate hb hr (by omega)
    have hwhole := cyclesFor_of_nonneg hrate (add_nonneg ha hb) hr hsize
    rw [hsum] at hwhole
    obtain ⟨hmachine, hlog, hanswer⟩ := run_add hfirst hsecond hwhole hc hd
    exact ⟨hmachine, hlog, _, _, answer_run hfirst, hanswer, answer_run hwhole⟩

/-- A machine that comes to wait for a key in its first cycle: what it does in one second
and in the two seconds after it, it does in three. At a negative rate there is a negative
answer and no cycle. -/
theorem runs_add_up_while_waiting :
    let m := (initial ⟨.int 600, .int 1, .absent, ⟨[7]⟩⟩).adjust (.memory 0x200 [0xF1, 0x0A])
    let n := initial ⟨.int (-600), .int 1, .absent, ⟨[7]⟩⟩
    let first := m.apply .error (.run (.int 1))
    let whole := m.apply .error (.run (.int 3))
    let backward := n.apply .error (.run (.int 3))
    m.cycle = m.tick.executeWord 0xF10A ∧ m.cycle.cycle = m.cycle.tick.withOperand 0 ∧
      (first.machine.apply .error (.run (.int 2))).machine = whole.machine ∧
      whole.answer = .ok (.integer 1800) ∧
      backward.answer = .ok (.integer (-1800)) ∧ backward.machine = n := by
  intro m n first whole backward
  have hword : m.tick.fetch.toNat = 0xF10A := by decide +kernel
  have hnext : m.cycle.fetch.toNat = 0 := by decide +kernel
  have hfree : ¬m.isBlocked = true := by decide +kernel
  have hblocked : m.cycle.isBlocked = true := by decide +kernel
  obtain ⟨hexecuted, hrun⟩ := runs_add_up m .error
  obtain ⟨hwaiting, -⟩ := runs_add_up m.cycle .error
  rw [if_neg hfree, hword] at hexecuted
  rw [if_pos hblocked, hnext] at hwaiting
  obtain ⟨hcount, hsum⟩ := hrun 600 rfl
  obtain ⟨hanswer, -⟩ := hcount 3 (by decide)
  obtain ⟨hboth, -⟩ := hsum 1 2 (by decide) (by decide) (by decide) (by decide)
  obtain ⟨hnegative, hnone, -⟩ := ((runs_add_up n .error).2 (-600) rfl).1 3 (by decide)
  exact ⟨hexecuted, hwaiting, hboth, hanswer, hnegative, hnone⟩

end Machine
end ChipEight

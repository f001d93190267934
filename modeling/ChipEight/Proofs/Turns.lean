import ChipEight.Emulator.Session
import ChipEight.Proofs.WellFormed
import Mathlib.Tactic.NormNum

/-!
# Turns

The loop of a session, taken apart into its turns. As long as every frame has a number
of cycles, the loop takes exactly the frames up to the first that asks to stop, and what
it leaves is a fold over them.
-/

namespace ChipEight

namespace Machine

theorem settings_cycles (n : Nat) (m : Machine) : (cycles n m).settings = m.settings := by
  rw [cycles_eq_actAll, settings_actAll]

def withProgram (m : Machine) (program : List Byte) : Machine :=
  { m with memory := m.memory.writeBlock programStart program }

theorem settings_withProgram (m : Machine) (program : List Byte) :
    (m.withProgram program).settings = m.settings := rfl

theorem display_withProgram (m : Machine) (program : List Byte) :
    (m.withProgram program).display = m.display := rfl

theorem drawn_withProgram (m : Machine) (program : List Byte) :
    (m.withProgram program).drawn = m.drawn := rfl

theorem load_program (m : Machine) (program : List Byte) :
    m.load (program.map fun b => (b.toNat : Int)) programStart =
      if 3584 < program.length then
        .error (.programTooLarge program.length programStart Memory.size)
      else .ok (m.withProgram program) := by
  have hbound : overruns program.length programStart = decide (3584 < program.length) := by
    simp only [overruns, programStart, Memory.size]
    apply decide_eq_decide.mpr
    omega
  rw [load_toNat, hbound]
  simp only [decide_eq_true_eq, Int.toNat_natCast, withProgram]

end Machine

namespace Session

open Machine (cycles cyclesLogged)

def cycleCount (m : Machine) (f : Frame) : Except ArithmeticError Int := do
  let seconds ← f.seconds
  m.cyclesFor seconds

theorem cycleCount_congr {m n : Machine} (h : m.settings = n.settings) (f : Frame) :
    cycleCount m f = cycleCount n f := by
  unfold cycleCount
  cases f.seconds with
  | error e => rfl
  | ok seconds => exact Machine.cyclesFor_congr (congrArg Settings.cycleRate h) seconds

theorem seconds_closing : Frame.closing.seconds = .ok (.float (.finite 0)) := by
  have hzero : (0 : Rat) / 1000 = 0 := by norm_num
  change Except.ok (Number.float (Binary64.nearest (0 / 1000))) = _
  rw [hzero]
  rfl

theorem cycleCount_closing (m : Machine) : cycleCount m Frame.closing = .ok 0 := by
  have hle : (Number.float (.finite 0)).le (.int 0) = true := by decide +kernel
  unfold cycleCount
  rw [seconds_closing]
  change m.cyclesFor (.float (.finite 0)) = .ok 0
  rw [Machine.cyclesFor, if_pos hle]

/-- With the closing frame behind them, all frames have a number of cycles. -/
theorem counts_append_closing {m : Machine} {frames : List Frame}
    (h : ∀ f ∈ frames, ∃ count, cycleCount m f = .ok count) :
    ∀ f ∈ frames ++ [Frame.closing], ∃ count, cycleCount m f = .ok count := by
  intro f hf
  rcases List.mem_append.mp hf with hin | hlast
  · exact h f hin
  · rw [List.mem_singleton.mp hlast]
    exact ⟨0, cycleCount_closing m⟩

theorem handleAll_eq_actAll (m : Machine) (f : Frame) :
    handleAll m f = m.actAll (f.events.flatMap Machine.eventActions) := by
  unfold handleAll
  induction f.events generalizing m with
  | nil => rfl
  | cons e es ih =>
    rw [List.foldl_cons, ih, List.flatMap_cons, Machine.actAll_append, Machine.handle_eq_actAll]

theorem settings_handleAll (m : Machine) (f : Frame) : (handleAll m f).settings = m.settings := by
  rw [handleAll_eq_actAll, Machine.settings_actAll]

/-- The machine after a frame: its events, then its cycles, and the display counts as
shown. -/
def live (m : Machine) (f : Frame) : Machine :=
  match cycleCount m f with
  | .ok count => { cycles count.toNat (handleAll m f) with drawn := false }
  | .error _ => m

theorem settings_live (m : Machine) (f : Frame) : (live m f).settings = m.settings := by
  unfold live
  split
  · exact (Machine.settings_cycles _ _).trans (settings_handleAll m f)
  · rfl

/-- The frames up to the first that asks to stop, with that one. -/
def taken : List Frame → List Frame
  | [] => []
  | f :: rest => f :: if f.stops then [] else taken rest

/-- A turn that has come to its end, with the machine before it. -/
structure Visit where
  before : Machine
  frame : Frame
  turn : Turn

/-- The turns of the loop that come to their end. -/
def visits (paint : Display → Surface → Surface) (threshold : Level) (m : Machine)
    (window : Surface) : List Frame → List Visit
  | [] => []
  | f :: rest =>
    match turn paint threshold m window f with
    | .error _ => []
    | .ok t =>
      ⟨m, f, t⟩ :: if f.stops then [] else visits paint threshold t.machine t.window rest

def paintings (number : Nat) : List Visit → List (Nat × Surface)
  | [] => []
  | v :: vs =>
    (if v.turn.painted then [(number, v.turn.window)] else []) ++ paintings (number + 1) vs

/-- A loop that has taken some turns and has come to its end. -/
def summary (number : Nat) (m : Machine) (vs : List Visit) : Session where
  ending := .ok 0
  machine := some ((vs.map Visit.frame).foldl live m)
  log := vs.flatMap fun v => v.turn.log
  turns := vs.length
  windows := paintings number vs

variable {paint : Display → Surface → Surface} {threshold : Level} {m : Machine}

theorem turn_eq {f : Frame} {count : Int} (h : cycleCount m f = .ok count) (window : Surface) :
    turn paint threshold m window f =
      .ok (refresh paint (cycles count.toNat (handleAll m f)) window
        ((cyclesLogged threshold count.toNat (handleAll m f) []).2.reverse.map .machine)) := by
  unfold cycleCount at h
  unfold turn
  cases hseconds : f.seconds with
  | error e => rw [hseconds] at h; cases h
  | ok seconds =>
    have hcount : (handleAll m f).cyclesFor seconds = .ok count := by
      rw [hseconds] at h
      rw [Machine.cyclesFor_congr (congrArg Settings.cycleRate (settings_handleAll m f))]
      exact h
    simp only [hcount, Machine.cyclesLogged_fst]

theorem turn_eq_error {f : Frame} {e : ArithmeticError} (h : cycleCount m f = .error e)
    (window : Surface) : ∃ left, turn paint threshold m window f = .error (e, left) := by
  unfold cycleCount at h
  unfold turn
  cases hseconds : f.seconds with
  | error e' =>
    rw [hseconds] at h
    cases h
    exact ⟨m, rfl⟩
  | ok seconds =>
    have hcount : (handleAll m f).cyclesFor seconds = .error e := by
      rw [hseconds] at h
      rw [Machine.cyclesFor_congr (congrArg Settings.cycleRate (settings_handleAll m f))]
      exact h
    exact ⟨handleAll m f, by simp only [hcount]⟩

theorem refresh_machine (m : Machine) (window : Surface) (log : List Report) :
    (refresh paint m window log).machine = { m with drawn := false } := by
  unfold refresh
  split
  · rfl
  · rename_i hdrawn
    rw [← Bool.eq_false_of_not_eq_true hdrawn]

theorem refresh_log (m : Machine) (window : Surface) (log : List Report) :
    (refresh paint m window log).log = log := by
  unfold refresh
  split <;> rfl

/-- A turn takes the actions of its cycles, from the machine that the events leave. -/
theorem turn_eq_actions {f : Frame} {count : Int} (h : cycleCount m f = .ok count)
    (window : Surface) :
    let ready := handleAll m f
    let done := Machine.cyclesActions count.toNat ready
    ∃ t, turn paint threshold m window f = .ok t ∧
      t.machine = { ready.actAll done with drawn := false } ∧
      t.log = ((ready.reportAll done).filter fun e => e.level.passes threshold).map .machine := by
  intro ready done
  refine ⟨_, turn_eq h window, ?_, ?_⟩
  · rw [refresh_machine, Machine.cycles_eq_actAll]
  · rw [refresh_log, Machine.cyclesLogged_snd]
    rfl

theorem exists_turn {f : Frame} (h : ∃ count, cycleCount m f = .ok count) (window : Surface) :
    ∃ t, turn paint threshold m window f = .ok t ∧ t.machine = live m f := by
  obtain ⟨count, hcount⟩ := h
  refine ⟨_, turn_eq hcount window, ?_⟩
  rw [refresh_machine, live, hcount]

/-- What holds of the frames at the beginning holds of those that are left. -/
theorem counts_live {frames : List Frame} (f : Frame)
    (h : ∀ g ∈ frames, ∃ count, cycleCount m g = .ok count) :
    ∀ g ∈ frames, ∃ count, cycleCount (live m f) g = .ok count := by
  intro g hg
  rw [cycleCount_congr (settings_live m f)]
  exact h g hg

theorem loop_eq_summary {frames : List Frame}
    (h : ∀ f ∈ frames, ∃ count, cycleCount m f = .ok count) (number : Nat) (window : Surface) :
    loop paint threshold number m window frames =
      summary number m (visits paint threshold m window frames) := by
  induction frames generalizing number m window with
  | nil => rfl
  | cons f rest ih =>
    obtain ⟨hfirst, hlater⟩ := List.forall_mem_cons.mp h
    obtain ⟨t, hturn, hmachine⟩ := exists_turn hfirst window
    have hrest : ∀ g ∈ rest, ∃ count, cycleCount t.machine g = .ok count := by
      rw [hmachine]
      exact counts_live f hlater
    rw [loop, visits, hturn]
    cases hstops : f.stops with
    | true => simp [summary, paintings, hmachine]
    | false =>
      simp only [Bool.false_eq_true, if_false, ih hrest]
      simp [summary, paintings, hmachine]

theorem frames_visits {frames : List Frame}
    (h : ∀ f ∈ frames, ∃ count, cycleCount m f = .ok count) (window : Surface) :
    (visits paint threshold m window frames).map Visit.frame = taken frames := by
  induction frames generalizing m window with
  | nil => rfl
  | cons f rest ih =>
    obtain ⟨hfirst, hlater⟩ := List.forall_mem_cons.mp h
    obtain ⟨t, hturn, hmachine⟩ := exists_turn hfirst window
    have hrest : ∀ g ∈ rest, ∃ count, cycleCount t.machine g = .ok count := by
      rw [hmachine]
      exact counts_live f hlater
    rw [visits, hturn, taken]
    cases f.stops with
    | true => rfl
    | false => simp [ih hrest]

/-- What a turn keeps and what every turn that it is kept in has, every turn of a loop
has. -/
theorem forall_visits {P : Machine → Surface → Prop} {Q : Visit → Prop}
    (step : ∀ {m window f t}, P m window → turn paint threshold m window f = .ok t →
      Q ⟨m, f, t⟩ ∧ P t.machine t.window)
    {window : Surface} (h : P m window) (frames : List Frame) :
    ∀ v ∈ visits paint threshold m window frames, Q v := by
  induction frames generalizing m window with
  | nil =>
    intro v hv
    cases hv
  | cons f rest ih =>
    intro v hv
    unfold visits at hv
    split at hv
    · cases hv
    · rename_i t hturn
      obtain ⟨hthis, hnext⟩ := step h hturn
      rcases List.mem_cons.mp hv with rfl | hlater
      · exact hthis
      · split at hlater
        · cases hlater
        · exact ih hnext v hlater

end Session
end ChipEight

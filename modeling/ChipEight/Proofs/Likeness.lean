import ChipEight.Proofs.Action
import Mathlib.Data.List.Basic

/-!
# Machines that look alike

What an operation makes of a machine, and what it answers, depends on few fields. Where
two machines look alike in these, an operation has the same actions for both; so a
relation between such machines that single actions keep is kept along whole runs, and
both machines take the same course.
-/

namespace ChipEight
namespace Machine

/-- Two machines that agree on what decides the actions of an operation and, but for the
dump, its answer. -/
structure Alike (m n : Machine) : Prop where
  cycleRate : m.settings.cycleRate = n.settings.cycleRate
  blocked : m.blocked = n.blocked
  display : m.display = n.display
  fetch : m.fetch = n.fetch

theorem loadImage_eq_map (m n : Machine) (image : Image) (offset : Int) :
    m.loadImage image offset = (n.loadImage image offset).map fun _ => { m with
      memory := m.memory.writeBlock offset.toNat (image.values.map (BitVec.ofInt 8)) } := by
  simp only [loadImage, load, imageBytes?]
  cases image.fault? with
  | some e => rfl
  | none => split_ifs <;> rfl

/-- What a key that goes down makes of the registers and of the wait depends on these. -/
theorem exists_press_of_same (m : Machine) (k : Key) : ∃ registers blocked, ∀ n : Machine,
    n.registers = m.registers → n.blocked = m.blocked → n.press k =
      { n with registers := registers, keys := (n.setKey k true).keys, blocked := blocked } := by
  cases hslot : m.blocked with
  | none =>
    refine ⟨m.registers, none, ?_⟩
    intro n hregisters hblocked
    have hpress : n.press k = n.setKey k true := by simp only [press, hblocked]
    rw [hpress, ← hregisters, ← hblocked]
    rfl
  | some slot =>
    cases hplace : register? .write slot with
    | ok x =>
      refine ⟨m.registers.set x (BitVec.ofNat 8 k.val), none, ?_⟩
      intro n hregisters hblocked
      simp only [press, hblocked, hplace, ← hregisters]
      rfl
    | error e =>
      refine ⟨m.registers, some slot, ?_⟩
      intro n hregisters hblocked
      have hpress : n.press k = n.setKey k true := by simp only [press, hblocked, hplace]
      rw [hpress, ← hregisters, ← hblocked]
      rfl

theorem timersReport_congr {m n : Machine} (htimers : m.timers = n.timers)
    (hdivider : m.settings.timerDivider = n.settings.timerDivider)
    (hsound : m.settings.sound = n.settings.sound) (a : Action) :
    m.timersReport a = n.timersReport a := by
  have hlog : m.decrementTimersLog = n.decrementTimersLog := by
    rw [decrementTimersLog, decrementTimersLog, htimers, hsound]
  cases a with
  | tick =>
    change m.tickLog = n.tickLog
    rw [tickLog, tickLog, htimers, hdivider, hlog]
  | decrement => exact hlog
  | _ => rfl

theorem processorReport_congr {m n : Machine} (hstack : m.stack = n.stack) (hpc : m.pc = n.pc)
    (hoperand : m.operand = n.operand) (a : Action) :
    m.processorReport a = n.processorReport a := by
  have hlog : ∀ i, m.executeLog i = n.executeLog i := by
    intro i
    unfold executeLog
    rw [hstack, hpc, hoperand]
  cases a with
  | trace word => rw [processorReport, processorReport, hpc]
  | execute c =>
    cases c with
    | none => exact hlog none
    | some c =>
      cases c with
      | instruction i => exact hlog (some i)
      | _ => rfl
  | _ => rfl

namespace Alike

variable {m n : Machine}

theorem isBlocked (h : Alike m n) : m.isBlocked = n.isBlocked := by
  rw [Machine.isBlocked, Machine.isBlocked, h.blocked]

theorem cyclesFor (h : Alike m n) (seconds : Number) :
    m.cyclesFor seconds = n.cyclesFor seconds :=
  cyclesFor_congr h.cycleRate seconds

theorem picture (h : Alike m n) (view : Viewport) : m.picture view = n.picture view := by
  rw [Machine.picture, Machine.picture, h.display]

theorem pressResult (h : Alike m n) : m.pressResult = n.pressResult := by
  rw [Machine.pressResult, Machine.pressResult, h.blocked]

theorem handleResult (h : Alike m n) (e : Event) : m.handleResult e = n.handleResult e := by
  unfold Machine.handleResult
  rw [h.pressResult]

theorem cycleActions (h : Alike m n) : m.cycleActions = n.cycleActions := by
  rw [Machine.cycleActions, Machine.cycleActions, h.fetch, h.isBlocked]

theorem answer (h : Alike m n) (threshold threshold' : Level) (op : Operation)
    (hdump : op = .dump → m.dump = n.dump) :
    (m.apply threshold op).answer = (n.apply threshold' op).answer := by
  change (m.outcome threshold op).answer = (n.outcome threshold' op).answer
  cases op with
  | load image offset =>
    simp only [outcome, m.loadImage_eq_map n]
    cases n.loadImage image offset <;> rfl
  | run seconds | count seconds =>
    simp only [outcome, h.cyclesFor]
    cases n.cyclesFor seconds <;> rfl
  | call mnemonic operands =>
    simp only [outcome]
    cases Call.ofOperands mnemonic operands <;> rfl
  | press offer =>
    simp only [outcome, h.pressResult]
    cases offer.key? <;> rfl
  | release offer =>
    simp only [outcome]
    cases offer.key? <;> rfl
  | pixel x y => simp only [outcome, unchanged, pixel, h.display]
  | event e => simp only [outcome, h.handleResult]
  | render view =>
    simp only [outcome, h.picture]
    cases n.picture view <;> rfl
  | fetch => simp only [outcome, unchanged, h.fetch]
  | dump => simp only [outcome, unchanged, hdump rfl]
  | cycle | tick | decrement | reset | execute word | skip | adjust a => rfl

end Alike

/-- Whether every action of a list is of some kind, seen from the machine before it. -/
def Along (kept : Machine → Action → Prop) (m : Machine) : List Action → Prop
  | [] => True
  | a :: as => kept m a ∧ Along kept (m.act a) as

theorem along_append {kept : Machine → Action → Prop} {m : Machine} {as bs : List Action} :
    Along kept m (as ++ bs) ↔ Along kept m as ∧ Along kept (m.actAll as) bs := by
  induction as generalizing m with
  | nil => simp [Along]
  | cons a as ih => simp only [List.cons_append, Along, actAll_cons, ih, and_assoc]

theorem along_of_forall {kept : Action → Prop} {as : List Action} (h : ∀ a ∈ as, kept a)
    (m : Machine) : Along (fun _ => kept) m as := by
  induction as generalizing m with
  | nil => trivial
  | cons a as ih =>
    obtain ⟨hfirst, hrest⟩ := List.forall_mem_cons.mp h
    exact ⟨hfirst, ih hrest _⟩

/-- A relation of machines that look alike. Actions of some kind keep it, where the kind may
be a matter of the machine, and it leaves no difference in those of their reports that are
listened to. -/
structure BisimulationAlong (kept : Machine → Action → Prop) (heard : Message → Bool)
    (R : Machine → Machine → Prop) : Prop where
  alike : ∀ {m n}, R m n → Alike m n
  act : ∀ {m n a}, kept m a → R m n → R (m.act a) (n.act a)
  reports : ∀ {m n a}, kept m a → R m n →
    (m.reports a).filter heard = (n.reports a).filter heard

namespace BisimulationAlong

variable {kept : Machine → Action → Prop} {heard : Message → Bool}
  {R : Machine → Machine → Prop} {m n : Machine} {as : List Action}

theorem actAll (h : BisimulationAlong kept heard R) (hmn : R m n) (has : Along kept m as) :
    R (m.actAll as) (n.actAll as) := by
  induction as generalizing m n with
  | nil => exact hmn
  | cons a as ih => exact ih (h.act has.1 hmn) has.2

theorem reportAll (h : BisimulationAlong kept heard R) (hmn : R m n) (has : Along kept m as) :
    (m.reportAll as).filter heard = (n.reportAll as).filter heard := by
  induction as generalizing m n with
  | nil => rfl
  | cons a as ih =>
    rw [reportAll_cons, reportAll_cons, List.filter_append, List.filter_append,
      h.reports has.1 hmn, ih (h.act has.1 hmn) has.2]

theorem cyclesActions (h : BisimulationAlong kept heard R) (hmn : R m n) (count : Nat)
    (hkept : Along kept m (cyclesActions count m)) :
    Machine.cyclesActions count m = Machine.cyclesActions count n := by
  induction count generalizing m n with
  | zero => rfl
  | succ count ih =>
    obtain ⟨hfirst, hrest⟩ := along_append.mp hkept
    have hsame := (h.alike hmn).cycleActions
    have hnext : R m.cycle n.cycle := by
      rw [cycle_eq_actAll, cycle_eq_actAll, ← hsame]
      exact h.actAll hmn hfirst
    rw [← cycle_eq_actAll] at hrest
    rw [Machine.cyclesActions, Machine.cyclesActions, hsame, ih hnext hrest]

theorem actions (h : BisimulationAlong kept heard R) (hmn : R m n) {op : Operation}
    (hkept : Along kept m (m.actions op)) : m.actions op = n.actions op := by
  have halike := h.alike hmn
  cases op with
  | load image offset =>
    simp only [Machine.actions, m.loadImage_eq_map n]
    cases n.loadImage image offset <;> rfl
  | cycle => exact halike.cycleActions
  | run seconds =>
    simp only [Machine.actions, halike.cyclesFor] at hkept ⊢
    cases hcount : n.cyclesFor seconds with
    | ok count =>
      rw [hcount] at hkept
      exact h.cyclesActions hmn count.toNat hkept
    | error e => rfl
  | render view => simp only [Machine.actions, halike.picture]
  | _ => rfl

theorem after (h : BisimulationAlong kept heard R) (hmn : R m n) (threshold threshold' : Level)
    (ops : List Operation) (hkept : Along kept m (m.history ops)) :
    R (m.after threshold ops) (n.after threshold' ops) := by
  rw [after_eq_actAll, after_eq_actAll]
  induction ops generalizing m n with
  | nil => exact hmn
  | cons op ops ih =>
    obtain ⟨hfirst, hrest⟩ := along_append.mp hkept
    have hsame := h.actions hmn hfirst
    rw [history, history, actAll_append, actAll_append, ← hsame]
    exact ih (h.actAll hmn hfirst) hrest

theorem apply (h : BisimulationAlong kept heard R) (hmn : R m n) (threshold threshold' : Level)
    (op : Operation) (hkept : Along kept m (m.actions op)) :
    R (m.apply threshold op).machine (n.apply threshold' op).machine := by
  change R (m.outcome threshold op).machine (n.outcome threshold' op).machine
  rw [outcome_machine, outcome_machine, ← h.actions hmn hkept]
  exact h.actAll hmn hkept

theorem log (h : BisimulationAlong kept heard R) (hmn : R m n) (threshold threshold' : Level)
    (hpass : ∀ e, heard e = true → e.level.passes threshold = e.level.passes threshold')
    (op : Operation) (hkept : Along kept m (m.actions op)) :
    (m.apply threshold op).log.filter heard = (n.apply threshold' op).log.filter heard := by
  have hswap : ∀ (t : Level) (es : List Message),
      (es.filter fun e => e.level.passes t).filter heard =
        (es.filter heard).filter fun e => e.level.passes t := by
    intro t es
    simp only [List.filter_filter, Bool.and_comm]
  rw [apply_log, apply_log, hswap, hswap, ← h.actions hmn hkept, h.reportAll hmn hkept]
  apply List.filter_congr
  intro e he
  exact hpass e (List.mem_filter.mp he).2

/-- Where every message is heard, at one threshold the logs are the same. -/
theorem log_eq (h : BisimulationAlong kept (fun _ => true) R) (hmn : R m n)
    (threshold : Level) (op : Operation) (hkept : Along kept m (m.actions op)) :
    (m.apply threshold op).log = (n.apply threshold op).log := by
  have hlog := h.log hmn threshold threshold (fun _ _ => rfl) op hkept
  rwa [List.filter_true, List.filter_true] at hlog

end BisimulationAlong

/-- A relation of machines that look alike. Actions of some kind keep it, and it leaves no
difference in those of their reports that are listened to. -/
structure Bisimulation (kept : Action → Prop) (heard : Message → Bool)
    (R : Machine → Machine → Prop) : Prop where
  alike : ∀ {m n}, R m n → Alike m n
  act : ∀ {m n a}, kept a → R m n → R (m.act a) (n.act a)
  reports : ∀ {m n a}, kept a → R m n →
    (m.reports a).filter heard = (n.reports a).filter heard

namespace Bisimulation

variable {kept : Action → Prop} {heard : Message → Bool} {R : Machine → Machine → Prop}
  {m n : Machine}

theorem along (h : Bisimulation kept heard R) : BisimulationAlong (fun _ => kept) heard R where
  alike := h.alike
  act := h.act
  reports := h.reports

theorem after (h : Bisimulation kept heard R) (hmn : R m n) (threshold threshold' : Level)
    (ops : List Operation) (hkept : ∀ a ∈ m.history ops, kept a) :
    R (m.after threshold ops) (n.after threshold' ops) :=
  h.along.after hmn threshold threshold' ops (along_of_forall hkept m)

theorem apply (h : Bisimulation kept heard R) (hmn : R m n) (threshold threshold' : Level)
    (op : Operation) (hkept : ∀ a ∈ m.actions op, kept a) :
    R (m.apply threshold op).machine (n.apply threshold' op).machine :=
  h.along.apply hmn threshold threshold' op (along_of_forall hkept m)

theorem log (h : Bisimulation kept heard R) (hmn : R m n) (threshold threshold' : Level)
    (hpass : ∀ e, heard e = true → e.level.passes threshold = e.level.passes threshold')
    (op : Operation) (hkept : ∀ a ∈ m.actions op, kept a) :
    (m.apply threshold op).log.filter heard = (n.apply threshold' op).log.filter heard :=
  h.along.log hmn threshold threshold' hpass op (along_of_forall hkept m)

/-- Where every message is heard, at one threshold the logs are the same. -/
theorem log_eq (h : Bisimulation kept (fun _ => true) R) (hmn : R m n) (threshold : Level)
    (op : Operation) (hkept : ∀ a ∈ m.actions op, kept a) :
    (m.apply threshold op).log = (n.apply threshold op).log :=
  h.along.log_eq hmn threshold op (along_of_forall hkept m)

end Bisimulation

end Machine
end ChipEight

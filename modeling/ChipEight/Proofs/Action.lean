import ChipEight.Machine.Operation
import Mathlib.Tactic.SplitIfs

/-!
# Actions

Every operation breaks up into actions, each of which does one thing to the machine
and reports what comes of it. A run of operations, whether they are accepted or
rejected, is then a single list of actions, and an invariant has to be shown for one
action only.
-/

namespace ChipEight

/-- One thing done to a machine. -/
inductive Action
  | note (operand : Int)
  | trace (word : Word)
  /-- An instruction is executed, or a word that is none is skipped over. -/
  | execute (c : Option Call)
  | tick
  | decrement
  | press (k : Key)
  | release (k : Key)
  | reset
  | load (bytes : List Byte) (offset : Int)
  | shown
  | adjust (a : Adjustment)
  deriving DecidableEq

namespace Action

/-- Whether a field is set by hand. -/
def adjusts : Action → Bool
  | adjust _ => true
  | _ => false

/-- Whether an action can be part of a cycle. -/
def runs : Action → Bool
  | note _ => true
  | trace _ => true
  | execute none => true
  | execute (some (.instruction _)) => true
  | tick => true
  | _ => false

/-- Whether an action belongs to the machine's own life: no field is set by hand, and
what is executed is an instruction with operands in range. -/
def isOrdinary : Action → Bool
  | adjust _ => false
  | execute (some (.instruction _)) => true
  | execute (some _) => false
  | _ => true

theorem isOrdinary_of_runs {a : Action} (h : a.runs = true) : a.isOrdinary = true := by
  match a with
  | note _ | trace _ | execute none | execute (some (.instruction _)) | tick => rfl

theorem runs_execute (i : Option Instruction) : (execute (i.map .instruction)).runs = true := by
  cases i <;> rfl

end Action

namespace Event

def pressed? : Event → Option Key
  | keyDown code => Keyboard.key? code
  | _ => none

def released? : Event → Option Key
  | keyUp code => Keyboard.key? code
  | _ => none

end Event

namespace Operation

def adjusts : Operation → Bool
  | adjust _ => true
  | _ => false

/-- Whether an operation belongs to the machine's own life. Neither a field set by hand
nor a call by mnemonic, which takes any operands, does. -/
def isOrdinary : Operation → Bool
  | adjust _ => false
  | call _ _ => false
  | _ => true

/-- Whether an operation can lead to an action. -/
def causes : Operation → Action → Bool
  | cycle, a => a.runs
  | run _, a => a.runs
  | execute _, .note _ => true
  | execute _, .execute none => true
  | execute _, .execute (some (.instruction _)) => true
  | call _ _, .execute (some _) => true
  | skip, .execute none => true
  | tick, .tick => true
  | decrement, .decrement => true
  | reset, .reset => true
  | load _ _, .load _ _ => true
  | press offer, .press k => offer.key? = some k
  | release offer, .release k => offer.key? = some k
  | event e, .press k => e.pressed? = some k
  | event e, .release k => e.released? = some k
  | render _, .shown => true
  | adjust a, .adjust b => a = b
  | _, _ => false

end Operation

namespace Machine

def carryOut (m : Machine) : Option Call → Machine
  | none => m.execute none
  | some c => m.call c

def carryOutLog (m : Machine) : Option Call → List Message
  | none => m.executeLog none
  | some c => m.callLog c

def act (m : Machine) : Action → Machine
  | .note operand => m.withOperand operand
  | .trace _ => m
  | .execute c => m.carryOut c
  | .tick => m.tick
  | .decrement => m.decrementTimers
  | .press k => m.press k
  | .release k => m.release k
  | .reset => m.reset
  | .load bytes offset => { m with memory := m.memory.writeBlock offset.toNat bytes }
  | .shown => { m with drawn := false }
  | .adjust a => m.adjust a

def timersReport (m : Machine) : Action → List Message
  | .tick => m.tickLog
  | .decrement => m.decrementTimersLog
  | _ => []

/-- What is reported of an action besides the beeps of the timers. -/
def processorReport (m : Machine) : Action → List Message
  | .trace word => [.traced m.pc word]
  | .execute c => m.carryOutLog c
  | .load bytes offset => [.loaded bytes.length offset]
  | _ => []

/-- What an action reports, seen from the machine before it. -/
def reports (m : Machine) (a : Action) : List Message := m.timersReport a ++ m.processorReport a

def actAll (m : Machine) (as : List Action) : Machine := as.foldl act m

def reportAll (m : Machine) : List Action → List Message
  | [] => []
  | a :: as => m.reports a ++ reportAll (m.act a) as

@[simp] theorem actAll_nil (m : Machine) : m.actAll [] = m := rfl

@[simp] theorem actAll_cons (m : Machine) (a : Action) (as : List Action) :
    m.actAll (a :: as) = (m.act a).actAll as := rfl

@[simp] theorem actAll_append (m : Machine) (as bs : List Action) :
    m.actAll (as ++ bs) = (m.actAll as).actAll bs :=
  List.foldl_append

@[simp] theorem reportAll_nil (m : Machine) : m.reportAll [] = [] := rfl

@[simp] theorem reportAll_cons (m : Machine) (a : Action) (as : List Action) :
    m.reportAll (a :: as) = m.reports a ++ (m.act a).reportAll as := rfl

theorem reportAll_append (m : Machine) (as bs : List Action) :
    m.reportAll (as ++ bs) = m.reportAll as ++ (m.actAll as).reportAll bs := by
  induction as generalizing m with
  | nil => rfl
  | cons a as ih => simp [ih]

/-- What every action of a list keeps, is kept by the whole list. -/
theorem actAll_keeps {P : Machine → Prop} {as : List Action} {m : Machine}
    (step : ∀ n, ∀ a ∈ as, P n → P (n.act a)) (h : P m) : P (m.actAll as) := by
  induction as generalizing m with
  | nil => exact h
  | cons a as ih =>
    apply ih
    · intro n b hb
      exact step n b (List.mem_cons_of_mem a hb)
    · exact step m a List.mem_cons_self h

/-- The actions of one cycle. -/
def cycleActions (m : Machine) : List Action :=
  [.note m.fetch.toNat, .tick] ++
    if m.isBlocked then []
    else [.trace m.fetch, .execute ((Instruction.decode m.fetch).map .instruction)]

def cyclesActions : Nat → Machine → List Action
  | 0, _ => []
  | n + 1, m => m.cycleActions ++ cyclesActions n m.cycle

def eventActions : Event → List Action
  | .keyDown code => (Keyboard.key? code).toList.map .press
  | .keyUp code => (Keyboard.key? code).toList.map .release
  | _ => []

/-- The actions of an operation. A rejected one has none, unless it fails on the way. -/
def actions (m : Machine) : Operation → List Action
  | .load image offset =>
    match m.loadImage image offset with
    | .ok _ => [.load (image.values.map (BitVec.ofInt 8)) offset]
    | .error _ => []
  | .cycle => m.cycleActions
  | .tick => [.tick]
  | .decrement => [.decrement]
  | .reset => [.reset]
  | .run seconds =>
    match m.cyclesFor seconds with
    | .ok count => cyclesActions count.toNat m
    | .error _ => []
  | .execute word => [.note word, .execute ((Instruction.ofInt? word).map .instruction)]
  | .call mnemonic operands =>
    match Call.ofOperands mnemonic operands with
    | .ok c => [.execute (some c)]
    | .error _ => []
  | .skip => [.execute none]
  | .press offer => offer.key?.toList.map .press
  | .release offer => offer.key?.toList.map .release
  | .event e => eventActions e
  | .render view =>
    match m.picture view with
    | .ok _ => [.shown]
    | .error _ => []
  | .adjust a => [.adjust a]
  | .count _ | .pixel _ _ | .fetch | .dump => []

/-- The actions of several operations, each applied to what the ones before it left. -/
def history (m : Machine) : List Operation → List Action
  | [] => []
  | op :: ops => m.actions op ++ history (m.actAll (m.actions op)) ops

/-- The machine after several operations. A rejected one does not end the run. -/
def after (threshold : Level) (m : Machine) (ops : List Operation) : Machine :=
  ops.foldl (fun n op => (n.apply threshold op).machine) m

def transcript (threshold : Level) (m : Machine) : List Operation → List Message
  | [] => []
  | op :: ops =>
    (m.apply threshold op).log ++ transcript threshold (m.apply threshold op).machine ops

theorem act_execute (m : Machine) (i : Option Instruction) :
    m.act (.execute (i.map .instruction)) = m.execute i := by
  cases i <;> rfl

theorem reports_execute (m : Machine) (i : Option Instruction) :
    m.reports (.execute (i.map .instruction)) = m.executeLog i := by
  cases i <;> rfl

@[simp] theorem reports_tick (m : Machine) : m.reports .tick = m.tickLog := by
  simp [reports, timersReport, processorReport]

theorem blocked_tick (m : Machine) : m.tick.blocked = m.blocked := by
  rw [tick_eq]

theorem isBlocked_prepare (m : Machine) : m.prepare.isBlocked = m.isBlocked := by
  rw [isBlocked, prepare, blocked_tick]
  rfl

theorem cycle_eq_actAll (m : Machine) : m.cycle = m.actAll m.cycleActions := by
  simp only [cycle, cycleActions, isBlocked_prepare]
  cases m.isBlocked with
  | true => rfl
  | false => exact (act_execute m.prepare (Instruction.decode m.fetch)).symm

theorem cycleLog_eq_reportAll (m : Machine) : m.cycleLog = m.reportAll m.cycleActions := by
  simp only [cycleLog, cycleActions, isBlocked_prepare]
  cases m.isBlocked with
  | true => simp [reports, timersReport, processorReport, act]
  | false =>
    simp only [Bool.false_eq_true, if_false, reportAll_append, reportAll_cons, reportAll_nil,
      actAll_cons, actAll_nil, reports_execute]
    simp [reports, timersReport, processorReport, act, prepare]

theorem cycles_eq_actAll (n : Nat) (m : Machine) : cycles n m = m.actAll (cyclesActions n m) := by
  induction n generalizing m with
  | zero => rfl
  | succ n ih => rw [cycles, cyclesActions, actAll_append, ← cycle_eq_actAll, ih]

theorem cyclesLogged_snd (threshold : Level) (n : Nat) (m : Machine) (log : List Message) :
    (cyclesLogged threshold n m log).2.reverse =
      log.reverse ++
        (m.reportAll (cyclesActions n m)).filter fun e => e.level.passes threshold := by
  induction n generalizing m log with
  | zero => simp [cyclesLogged, cyclesActions]
  | succ n ih =>
    rw [cyclesLogged, ih, cyclesActions, reportAll_append, ← cycleLog_eq_reportAll,
      ← cycle_eq_actAll, List.filter_append]
    simp

theorem handle_eq_actAll (m : Machine) (e : Event) : m.handle e = m.actAll (eventActions e) := by
  cases e with
  | keyDown code => cases h : Keyboard.key? code <;> simp [handle, eventActions, h, act]
  | keyUp code => cases h : Keyboard.key? code <;> simp [handle, eventActions, h, act]
  | quit => rfl
  | other => rfl

theorem reportAll_eventActions (m : Machine) (e : Event) : m.reportAll (eventActions e) = [] := by
  cases e with
  | keyDown code =>
    cases h : Keyboard.key? code <;>
      simp [eventActions, h, reports, timersReport, processorReport]
  | keyUp code =>
    cases h : Keyboard.key? code <;>
      simp [eventActions, h, reports, timersReport, processorReport]
  | quit => rfl
  | other => rfl

theorem load_eq_ok {m n : Machine} {image : List Int} {offset : Int}
    (h : m.load image offset = .ok n) :
    n = { m with memory := m.memory.writeBlock offset.toNat (image.map (BitVec.ofInt 8)) } := by
  unfold load imageBytes? at h
  split_ifs at h with hsize hbytes
  · exact (Except.ok.inj h).symm

theorem loadImage_eq_ok {m n : Machine} {image : Image} {offset : Int}
    (h : m.loadImage image offset = .ok n) : m.load image.values offset = .ok n := by
  cases hfault : image.fault? with
  | none => rwa [loadImage_of_fault?_eq_none hfault] at h
  | some e => simp [loadImage, hfault] at h

theorem runs_of_mem_cycleActions {m : Machine} {a : Action} (h : a ∈ m.cycleActions) :
    a.runs = true := by
  unfold cycleActions at h
  split at h
  · simp only [List.append_nil, List.mem_cons, List.not_mem_nil, or_false] at h
    rcases h with rfl | rfl <;> rfl
  · simp only [List.mem_append, List.mem_cons, List.not_mem_nil, or_false] at h
    rcases h with (rfl | rfl) | rfl | rfl
    · rfl
    · rfl
    · rfl
    · exact Action.runs_execute _

theorem runs_of_mem_cyclesActions {n : Nat} {m : Machine} {a : Action}
    (h : a ∈ cyclesActions n m) : a.runs = true := by
  induction n generalizing m with
  | zero => cases h
  | succ n ih =>
    rcases List.mem_append.mp h with hfirst | hrest
    · exact runs_of_mem_cycleActions hfirst
    · exact ih hrest

theorem mem_eventActions {e : Event} {a : Action} (h : a ∈ eventActions e) :
    (∃ k, a = .press k) ∨ ∃ k, a = .release k := by
  cases e with
  | keyDown code =>
    obtain ⟨k, _, rfl⟩ := List.mem_map.mp h
    exact Or.inl ⟨k, rfl⟩
  | keyUp code =>
    obtain ⟨k, _, rfl⟩ := List.mem_map.mp h
    exact Or.inr ⟨k, rfl⟩
  | quit => cases h
  | other => cases h

/-- An operation has only actions that it can lead to. -/
theorem causes_of_mem_actions {m : Machine} {op : Operation} {a : Action}
    (h : a ∈ m.actions op) : op.causes a = true := by
  cases op with
  | cycle => exact runs_of_mem_cycleActions h
  | run seconds =>
    simp only [actions] at h
    split at h
    · exact runs_of_mem_cyclesActions h
    · cases h
  | execute word =>
    simp only [actions, List.mem_cons, List.not_mem_nil, or_false] at h
    rcases h with rfl | rfl
    · rfl
    · cases Instruction.ofInt? word <;> rfl
  | event e =>
    cases e with
    | keyDown code | keyUp code =>
      obtain ⟨k, hk, rfl⟩ := List.mem_map.mp h
      exact decide_eq_true (Option.mem_toList.mp hk)
    | quit | other => cases h
  | press offer | release offer =>
    obtain ⟨k, hk, rfl⟩ := List.mem_map.mp h
    exact decide_eq_true (Option.mem_toList.mp hk)
  | load image offset | call mnemonic operands | render view =>
    simp only [actions] at h
    split at h
    · rw [List.mem_singleton.mp h]; rfl
    · cases h
  | adjust a =>
    rw [List.mem_singleton.mp h]
    exact decide_eq_true rfl
  | tick | decrement | reset | skip => rw [List.mem_singleton.mp h]; rfl
  | count _ | pixel _ _ | fetch | dump => cases h

theorem isOrdinary_of_mem_actions {m : Machine} {op : Operation} {a : Action}
    (hop : op.isOrdinary = true) (h : a ∈ m.actions op) : a.isOrdinary = true := by
  have hcause := causes_of_mem_actions h
  match a with
  | .execute (some (.compare _ _ _)) | .execute (some (.drawRows _ _ _))
  | .execute (some (.pointAt _)) | .execute (some (.waitFor _)) | .execute (some (.store _))
  | .execute (some (.load _)) | .execute (some (.randomInVain _)) =>
    cases op with
    | call _ _ => cases hop
    | _ => cases hcause
  | .adjust _ =>
    cases op with
    | adjust _ => cases hop
    | _ => cases hcause
  | .execute none | .execute (some (.instruction _)) => rfl
  | .note _ | .trace _ | .tick | .decrement | .press _ | .release _ | .reset | .load _ _
  | .shown => rfl

theorem adjusts_of_mem_actions {m : Machine} {op : Operation} {a : Action}
    (hop : op.adjusts = false) (h : a ∈ m.actions op) : a.adjusts = false := by
  have hcause := causes_of_mem_actions h
  cases a with
  | adjust b =>
    cases op with
    | adjust _ => cases hop
    | _ => cases hcause
  | _ => rfl

/-- The actions of a run have in common what the actions of each operation have. -/
theorem forall_mem_history {p : Action → Prop} {q : Operation → Prop}
    (hop : ∀ n op a, q op → a ∈ actions n op → p a) {m : Machine} {ops : List Operation}
    (h : ∀ op ∈ ops, q op) : ∀ a ∈ m.history ops, p a := by
  induction ops generalizing m with
  | nil =>
    intro a ha
    cases ha
  | cons op ops ih =>
    obtain ⟨hfirst, hrest⟩ := List.forall_mem_cons.mp h
    intro a ha
    rcases List.mem_append.mp ha with hin | hlater
    · exact hop m op a hfirst hin
    · exact ih hrest a hlater

theorem history_append (m : Machine) (ops more : List Operation) :
    m.history (ops ++ more) = m.history ops ++ (m.actAll (m.history ops)).history more := by
  induction ops generalizing m with
  | nil => rfl
  | cons op ops ih => simp only [List.cons_append, history, ih, actAll_append, List.append_assoc]

theorem exists_causes_of_mem_history {m : Machine} {ops : List Operation} {a : Action}
    (h : a ∈ m.history ops) : ∃ op ∈ ops, op.causes a = true := by
  induction ops generalizing m with
  | nil => cases h
  | cons op ops ih =>
    rcases List.mem_append.mp h with hin | hlater
    · exact ⟨op, List.mem_cons_self, causes_of_mem_actions hin⟩
    · obtain ⟨op', hop', hcause⟩ := ih hlater
      exact ⟨op', List.mem_cons_of_mem op hop', hcause⟩

/-- An operation does to the machine what its actions do. -/
theorem outcome_machine (threshold : Level) (m : Machine) (op : Operation) :
    (m.outcome threshold op).machine = m.actAll (m.actions op) := by
  cases op with
  | load image offset =>
    cases h : m.loadImage image offset with
    | ok n =>
      simp only [outcome, h, changed, actions, actAll_cons, actAll_nil, act]
      exact load_eq_ok (loadImage_eq_ok h)
    | error e => simp [outcome, actions, h, unchanged]
  | cycle => exact m.cycle_eq_actAll
  | run seconds =>
    cases h : m.cyclesFor seconds with
    | ok count => simp [outcome, actions, h, cyclesLogged_fst, cycles_eq_actAll]
    | error e => simp [outcome, actions, h, unchanged]
  | count seconds => cases h : m.cyclesFor seconds <;> simp [outcome, actions, h, unchanged]
  | execute word => exact (act_execute (m.withOperand word) _).symm
  | call mnemonic operands =>
    cases h : Call.ofOperands mnemonic operands <;>
      simp [outcome, actions, h, unchanged, act, carryOut]
  | press offer => cases h : offer.key? <;> simp [outcome, actions, h, unchanged, act]
  | release offer => cases h : offer.key? <;> simp [outcome, actions, h, unchanged, changed, act]
  | event e => exact m.handle_eq_actAll e
  | render view => cases h : m.picture view <;> simp [outcome, actions, h, unchanged, act]
  | tick | decrement | reset | skip | adjust a => rfl
  | pixel x y | fetch | dump => rfl

theorem apply_log (threshold : Level) (m : Machine) (op : Operation) :
    (m.apply threshold op).log =
      (m.reportAll (m.actions op)).filter fun e => e.level.passes threshold := by
  have hsilent : ∀ answer, (m.unchanged answer).log = [] := by
    intro answer
    rfl
  unfold apply
  cases op with
  | load image offset =>
    cases h : m.loadImage image offset with
    | ok n => simp [outcome, actions, h, changed, reports, timersReport, processorReport,
        image.length_values]
    | error e => simp [outcome, actions, h, hsilent]
  | cycle => simp only [outcome, changed, actions, cycleLog_eq_reportAll]
  | run seconds =>
    cases h : m.cyclesFor seconds with
    | ok count => simp [outcome, actions, h, cyclesLogged_snd]
    | error e => simp [outcome, actions, h, hsilent]
  | count seconds => cases h : m.cyclesFor seconds <;> simp [outcome, actions, h, hsilent]
  | execute word =>
    simp only [outcome, changed, actions, reportAll_cons, reportAll_nil, reports_execute]
    simp [reports, timersReport, processorReport, act, executeWordLog]
  | call mnemonic operands =>
    cases h : Call.ofOperands mnemonic operands <;>
      simp [outcome, actions, h, hsilent, reports, timersReport, processorReport, carryOutLog]
  | press offer =>
    cases h : offer.key? <;>
      simp [outcome, actions, h, hsilent, reports, timersReport, processorReport]
  | release offer =>
    cases h : offer.key? <;>
      simp [outcome, actions, h, hsilent, changed, reports, timersReport, processorReport]
  | event e => simp [outcome, actions, reportAll_eventActions]
  | render view =>
    cases h : m.picture view <;>
      simp [outcome, actions, h, hsilent, reports, timersReport, processorReport]
  | tick | decrement | reset | skip | adjust a =>
    simp [outcome, actions, changed, reports, timersReport, processorReport, carryOutLog]
  | pixel x y | fetch | dump => simp [outcome, actions, hsilent]

/-- A run does to the machine what the actions of its history do. -/
theorem after_eq_actAll (threshold : Level) (m : Machine) (ops : List Operation) :
    m.after threshold ops = m.actAll (m.history ops) := by
  induction ops generalizing m with
  | nil => rfl
  | cons op ops ih =>
    have hop : (m.apply threshold op).machine = m.actAll (m.actions op) :=
      outcome_machine threshold m op
    rw [history, actAll_append, ← hop, ← ih]
    rfl

theorem transcript_eq_reportAll (threshold : Level) (m : Machine) (ops : List Operation) :
    m.transcript threshold ops =
      (m.reportAll (m.history ops)).filter fun e => e.level.passes threshold := by
  induction ops generalizing m with
  | nil => rfl
  | cons op ops ih =>
    have hop : (m.apply threshold op).machine = m.actAll (m.actions op) :=
      outcome_machine threshold m op
    rw [transcript, history, reportAll_append, List.filter_append, apply_log, hop, ih]

end Machine
end ChipEight

import ChipEight.Proofs.Action
import ChipEight.Proofs.Footprint

/-!
# Nesting of calls

The circular call stack against a list of the calls that have not returned yet, the
latest first. The list keeps sixteen entries. Pointer and depth drift apart once a call
has run over or a return has found nothing, so what ties the stack to the list are the
slots just below the pointer: as many of them as the depth says are the list, in order.
-/

namespace ChipEight

/-- What an action does to the call stack. -/
inductive Move
  | enter
  | leave
  | clear
  | stay
  deriving DecidableEq

def Action.move : Action → Move
  | execute (some (.instruction (.call _))) => .enter
  | execute (some (.instruction .ret)) => .leave
  | reset => .clear
  | _ => .stay

/-- The calls of a run since the last reset. -/
structure Nesting where
  /-- Where the calls were made that have not returned yet, the latest first. -/
  calls : List Word
  /-- How many more calls than returns there were. -/
  balance : Int
  deriving DecidableEq

namespace Nesting

def start : Nesting := ⟨[], 0⟩

/-- A call or a return, or whatever else an action does, with the counter where it is. -/
def step (n : Nesting) (pc : Word) : Move → Nesting
  | .enter => ⟨(pc :: n.calls).take CallStack.capacity, n.balance + 1⟩
  | .leave => ⟨n.calls.tail, n.balance - 1⟩
  | .clear => start
  | .stay => n

def run (n : Nesting) (m : Machine) : List Action → Nesting
  | [] => n
  | a :: as => run (n.step m.pc a.move) (m.act a) as

/-- What is warned of: a call on a full list and a return on an empty one. -/
def warnings (n : Nesting) (pc : Word) : Move → List Message
  | .enter =>
    if n.calls.length = CallStack.capacity then
      [.callOverflow pc (n.balance % CallStack.capacity).toNat]
    else []
  | .leave => if n.calls = [] then [.returnWithoutCall pc] else []
  | _ => []

def allWarnings (n : Nesting) (m : Machine) : List Action → List Message
  | [] => []
  | a :: as =>
    n.warnings m.pc a.move ++ allWarnings (n.step m.pc a.move) (m.act a) as

theorem run_append (n : Nesting) (m : Machine) (as bs : List Action) :
    n.run m (as ++ bs) = (n.run m as).run (m.actAll as) bs := by
  induction as generalizing n m with
  | nil => rfl
  | cons a as ih => exact ih _ _

end Nesting

namespace CallStack

/-- The slot that lies some places below the pointer. -/
def below (s : CallStack) (i : Nat) : Word := s.slots[s.pointer - 1 - Fin.ofNat 16 i]

/-- A stack that stands for the calls of a run. -/
structure Holds (s : CallStack) (n : Nesting) : Prop where
  depth_eq : s.depth = n.calls.length
  depth_le : n.calls.length ≤ capacity
  below_eq : ∀ i (h : i < n.calls.length), s.below i = n.calls[i]
  pointer_eq : (s.pointer.val : Int) = n.balance % capacity

theorem below_zero (s : CallStack) : s.below 0 = s.top := by
  have hplace : s.pointer - 1 - Fin.ofNat 16 0 = s.pointer - 1 := by
    apply Fin.ext
    simp only [Fin.sub_def, Fin.val_ofNat]
    omega
  simp only [below, hplace, top]

theorem below_push_zero (s : CallStack) (a : Word) : (s.push a).below 0 = a := by
  have hplace : s.pointer + 1 - 1 = s.pointer := by
    apply Fin.ext
    have hone : (1 : Fin 16).val = 1 := rfl
    simp only [Fin.sub_def, Fin.val_add]
    omega
  rw [below_zero, top]
  simp only [push, hplace]
  simp

theorem below_push_succ (s : CallStack) (a : Word) {i : Nat} (h : i + 1 < 16) :
    (s.push a).below (i + 1) = s.below i := by
  have hone : (1 : Fin 16).val = 1 := rfl
  have hplace : s.pointer + 1 - 1 - Fin.ofNat 16 (i + 1) = s.pointer - 1 - Fin.ofNat 16 i := by
    apply Fin.ext
    simp only [Fin.sub_def, Fin.val_add, Fin.val_ofNat]
    omega
  have hne : s.pointer.val ≠ (s.pointer - 1 - Fin.ofNat 16 i).val := by
    simp only [Fin.sub_def, Fin.val_ofNat]
    omega
  simp only [below, push, hplace]
  exact Vector.getElem_set_ne _ _ hne

theorem below_pop (s : CallStack) (i : Nat) : s.pop.below i = s.below (i + 1) := by
  have hplace : s.pointer - 1 - 1 - Fin.ofNat 16 i = s.pointer - 1 - Fin.ofNat 16 (i + 1) := by
    apply Fin.ext
    have hone : (1 : Fin 16).val = 1 := rfl
    simp only [Fin.sub_def, Fin.val_ofNat]
    omega
  simp only [below, pop, hplace]

namespace Holds

theorem empty : CallStack.empty.Holds Nesting.start where
  depth_eq := rfl
  depth_le := Nat.zero_le _
  below_eq := by
    intro i h
    cases h
  pointer_eq := rfl

theorem push {s : CallStack} {n : Nesting} (h : s.Holds n) (pc : Word) :
    (s.push pc).Holds (n.step pc .enter) where
  depth_eq := by
    have hdepth := h.depth_eq
    have hle := h.depth_le
    by_cases hfull : capacity ≤ s.depth
    · simp only [CallStack.push, if_pos hfull, Nesting.step, List.length_take, List.length_cons]
      omega
    · simp only [CallStack.push, if_neg hfull, Nesting.step, List.length_take, List.length_cons]
      omega
  depth_le := by
    simp only [Nesting.step, List.length_take]
    omega
  below_eq := by
    intro i hi
    simp only [Nesting.step, List.length_take, List.length_cons, capacity] at hi
    cases i with
    | zero => exact s.below_push_zero pc
    | succ i =>
      rw [s.below_push_succ pc (by omega), h.below_eq i (by omega)]
      simp [Nesting.step]
  pointer_eq := by
    have hpointer := h.pointer_eq
    simp only [CallStack.push, Nesting.step, capacity, Fin.val_add] at *
    have hone : ((1 : Fin 16).val) = 1 := rfl
    omega

theorem pop {s : CallStack} {n : Nesting} (h : s.Holds n) (pc : Word) :
    s.pop.Holds (n.step pc .leave) where
  depth_eq := by
    have hdepth := h.depth_eq
    simp only [CallStack.pop, Nesting.step, List.length_tail]
    omega
  depth_le := by
    have hle := h.depth_le
    simp only [Nesting.step, List.length_tail]
    omega
  below_eq := by
    intro i hi
    simp only [Nesting.step, List.length_tail] at hi
    rw [s.below_pop, h.below_eq (i + 1) (by omega)]
    simp [Nesting.step]
  pointer_eq := by
    have hpointer := h.pointer_eq
    simp only [CallStack.pop, Nesting.step, capacity, Fin.sub_def] at *
    have hone : ((1 : Fin 16).val) = 1 := rfl
    omega

/-- A stack that stands for nothing is empty, one that stands for sixteen calls full. -/
theorem isEmpty_eq {s : CallStack} {n : Nesting} (h : s.Holds n) :
    s.isEmpty = decide (n.calls = []) := by
  rw [isEmpty, h.depth_eq]
  exact decide_eq_decide.mpr List.length_eq_zero_iff

theorem isFull_eq {s : CallStack} {n : Nesting} (h : s.Holds n) :
    s.isFull = decide (n.calls.length = capacity) := by
  have hle := h.depth_le
  rw [isFull, h.depth_eq]
  apply decide_eq_decide.mpr
  omega

theorem top_eq {s : CallStack} {n : Nesting} (h : s.Holds n) {p : Word} {rest : List Word}
    (hcalls : n.calls = p :: rest) : s.top = p := by
  have hlt : 0 < n.calls.length := by simp [hcalls]
  rw [← s.below_zero, h.below_eq 0 hlt]
  simp [hcalls]

end Holds
end CallStack

namespace Machine

theorem stack_act (m : Machine) {a : Action} (ha : a.adjusts = false) :
    (m.act a).stack = match a.move with
      | .enter => m.stack.push m.pc
      | .leave => m.stack.pop
      | .clear => CallStack.empty
      | .stay => m.stack := by
  cases a with
  | execute c =>
    match c with
    | none => rfl
    | some (.instruction i) => cases i <;> rfl
    | some (.compare _ _ _) | some (.drawRows _ _ _) | some (.pointAt _) | some (.waitFor _)
    | some (.randomInVain _) => rfl
    | some (.store last) | some (.load last) =>
      simp only [act, carryOut, call, afterBlock]
      split_ifs <;> rfl
  | tick =>
    rw [act, tick_eq]
    rfl
  | press k =>
    obtain ⟨registers, blocked, hpress⟩ := m.exists_press k
    rw [act, hpress]
    rfl
  | adjust a => cases ha
  | _ => rfl

theorem holds_act {m : Machine} {n : Nesting} (h : m.stack.Holds n) {a : Action}
    (ha : a.adjusts = false) : (m.act a).stack.Holds (n.step m.pc a.move) := by
  rw [m.stack_act ha]
  cases a.move with
  | enter => exact h.push m.pc
  | leave => exact h.pop m.pc
  | clear => exact CallStack.Holds.empty
  | stay => exact h

theorem holds_actAll {m : Machine} {n : Nesting} (h : m.stack.Holds n) {as : List Action}
    (has : ∀ a ∈ as, a.adjusts = false) : (m.actAll as).stack.Holds (n.run m as) := by
  induction as generalizing m n with
  | nil => exact h
  | cons a as ih =>
    obtain ⟨hfirst, hrest⟩ := List.forall_mem_cons.mp has
    exact ih (holds_act h hfirst) hrest

theorem holds_initial (settings : Settings) :
    (initial settings).stack.Holds Nesting.start :=
  CallStack.Holds.empty

theorem pc_of_leave {m : Machine} {n : Nesting} (h : m.stack.Holds n) {r : Action}
    (hr : r.move = .leave) {p : Word} {rest : List Word} (hcalls : n.calls = p :: rest) :
    (m.act r).pc.toNat = (p.toNat + 2) % 4096 := by
  have hpc : (m.act r).pc = Word.address (m.stack.top + 2) := by
    match r with
    | .execute (some (.instruction .ret)) => rfl
  rw [hpc, h.top_eq hcalls, Word.address_add_toNat]
  rfl

theorem warnings_act {m : Machine} {n : Nesting} (h : m.stack.Holds n) (a : Action) :
    ((m.reports a).filter fun e => e.level = .warning) = n.warnings m.pc a.move := by
  cases a with
  | execute c =>
    match c with
    | none | some (.compare _ _ _) | some (.drawRows _ _ _) | some (.pointAt _)
    | some (.waitFor _) | some (.store _) | some (.load _) | some (.randomInVain _) => rfl
    | some (.instruction i) =>
      cases i with
      | ret =>
        change ((if m.stack.isEmpty then [Message.returnWithoutCall m.pc] else []).filter _) =
          if n.calls = [] then [Message.returnWithoutCall m.pc] else []
        rw [h.isEmpty_eq]
        by_cases hempty : n.calls = [] <;> simp [hempty, Message.level]
      | call a =>
        have hslot : (n.balance % CallStack.capacity).toNat = m.stack.pointer.val := by
          rw [← h.pointer_eq]
          rfl
        change ((if m.stack.isFull then [Message.callOverflow m.pc m.stack.pointer.val]
          else []).filter _) = if n.calls.length = CallStack.capacity then
            [Message.callOverflow m.pc (n.balance % CallStack.capacity).toNat] else []
        rw [h.isFull_eq, hslot]
        by_cases hfull : n.calls.length = CallStack.capacity <;> simp [hfull, Message.level]
      | _ => rfl
  | tick =>
    simp only [reports_tick, tickLog, decrementTimersLog]
    split_ifs <;> rfl
  | decrement =>
    simp only [reports, timersReport, processorReport, decrementTimersLog]
    split_ifs <;> rfl
  | _ => rfl

theorem warnings_actAll {m : Machine} {n : Nesting} (h : m.stack.Holds n) {as : List Action}
    (has : ∀ a ∈ as, a.adjusts = false) :
    ((m.reportAll as).filter fun e => e.level = .warning) = n.allWarnings m as := by
  induction as generalizing m n with
  | nil => rfl
  | cons a as ih =>
    obtain ⟨hfirst, hrest⟩ := List.forall_mem_cons.mp has
    rw [reportAll_cons, List.filter_append, warnings_act h a, ih (holds_act h hfirst) hrest]
    rfl

/-- No call is made on a full stack. -/
def neverFull (m : Machine) : List Action → Prop
  | [] => True
  | a :: as => (a.move = .enter → m.stack.isFull = false) ∧ (m.act a).neverFull as

theorem neverFull_append {m : Machine} {as bs : List Action} :
    m.neverFull (as ++ bs) ↔ m.neverFull as ∧ (m.actAll as).neverFull bs := by
  induction as generalizing m with
  | nil => simp [neverFull]
  | cons a as ih => simp [neverFull, ih, and_assoc]

end Machine

/-- Actions in which every call has its return and every return its call. -/
inductive Matched : List Action → Prop
  | nil : Matched []
  | stay {a : Action} {as : List Action} (ha : a.move = .stay) (h : Matched as) :
      Matched (a :: as)
  | nested {c r : Action} {inner rest : List Action} (hc : c.move = .enter)
      (hr : r.move = .leave) (hinner : Matched inner) (hrest : Matched rest) :
      Matched (c :: inner ++ r :: rest)

namespace Nesting

/-- A return takes back a call that did not push out an older one. -/
theorem leave_enter {n : Nesting} (h : n.calls.length < CallStack.capacity) (pc pc' : Word) :
    (n.step pc .enter).step pc' .leave = n := by
  have htake : (pc :: n.calls).take CallStack.capacity = pc :: n.calls :=
    List.take_of_length_le h
  simp only [step, htake, List.tail_cons, Int.add_sub_cancel]

/-- Actions that leave no trace on the calls, as long as none of them runs over. -/
def Neutral (as : List Action) : Prop :=
  ∀ {m : Machine} {n : Nesting}, m.stack.Holds n → (∀ a ∈ as, a.adjusts = false) →
    m.neverFull as → n.run m as = n

/-- Behind a call with neutral actions after it, that call is the latest. -/
theorem run_enclosed {inner : List Action} (hinner : Neutral inner) {m : Machine} {n : Nesting}
    (h : m.stack.Holds n) {c : Action} (hc : c.move = .enter)
    (has : ∀ a ∈ c :: inner, a.adjusts = false) (hroom : m.neverFull (c :: inner)) :
    n.calls.length < CallStack.capacity ∧ n.run m (c :: inner) = n.step m.pc .enter := by
  obtain ⟨hnotfull, hinroom⟩ := hroom
  obtain ⟨hfirst, hrest⟩ := List.forall_mem_cons.mp has
  have hcall := Machine.holds_act h hfirst
  rw [hc] at hcall
  constructor
  · have hne := hnotfull hc
    rw [h.isFull_eq] at hne
    exact Nat.lt_of_le_of_ne h.depth_le (of_decide_eq_false hne)
  · rw [run, hc]
    exact hinner hcall hrest hinroom

theorem neutral_of_matched {as : List Action} (hmatched : Matched as) : Neutral as := by
  induction hmatched with
  | nil =>
    intro m n _ _ _
    rfl
  | @stay a as ha _ ih =>
    intro m n h has hroom
    obtain ⟨hfirst, hrest⟩ := List.forall_mem_cons.mp has
    have hstay := Machine.holds_act h hfirst
    rw [ha] at hstay
    rw [run, ha]
    exact ih hstay hrest hroom.2
  | @nested c r inner rest hc hr _ _ ihinner ihrest =>
    intro m n h has hroom
    obtain ⟨hin, hout⟩ := List.forall_mem_append.mp has
    obtain ⟨hleave, hrest⟩ := List.forall_mem_cons.mp hout
    obtain ⟨hinroom, _, hrestroom⟩ := Machine.neverFull_append.mp hroom
    obtain ⟨hlt, hinner⟩ := run_enclosed ihinner h hc hin hinroom
    have hback := Machine.holds_actAll h hin
    rw [hinner] at hback
    have hreturn := Machine.holds_act hback hleave
    rw [hr, leave_enter hlt] at hreturn
    rw [run_append, hinner, run, hr, leave_enter hlt]
    exact ihrest hreturn hrest hrestroom

end Nesting

namespace Machine

/-- A call with matched calls after it comes back behind where it was made, and the
stack is as deep as it was. -/
theorem return_matched {m : Machine} {n : Nesting} (h : m.stack.Holds n) {c r : Action}
    {inner : List Action} (hc : c.move = .enter) (hr : r.move = .leave)
    (hinner : Matched inner) (has : ∀ a ∈ c :: inner ++ [r], a.adjusts = false)
    (hroom : m.neverFull (c :: inner)) :
    (m.actAll (c :: inner ++ [r])).pc.toNat = (m.pc.toNat + 2) % 4096 ∧
      (m.actAll (c :: inner ++ [r])).stack.pointer = m.stack.pointer ∧
      (m.actAll (c :: inner ++ [r])).stack.depth = m.stack.depth := by
  obtain ⟨hin, hreturn⟩ := List.forall_mem_append.mp has
  obtain ⟨hlt, hrun⟩ :=
    Nesting.run_enclosed (Nesting.neutral_of_matched hinner) h hc hin hroom
  have hback := holds_actAll h hin
  rw [hrun] at hback
  have hcalls : (n.step m.pc .enter).calls = m.pc :: n.calls := List.take_of_length_le hlt
  have hafter := holds_act hback (hreturn r List.mem_cons_self)
  rw [hr, Nesting.leave_enter hlt] at hafter
  rw [actAll_append, actAll_cons _ r, actAll_nil]
  refine ⟨pc_of_leave hback hr hcalls, ?_, ?_⟩
  · apply Fin.ext
    have hnew := hafter.pointer_eq
    have hold := h.pointer_eq
    omega
  · rw [hafter.depth_eq, h.depth_eq]

/-- The call stack of a run stands for the sixteen latest calls that have not returned.
Returns go where these say, warnings come where these say, and a call whose inner calls
are matched comes back. -/
theorem calls_nest {settings : Settings} {start : Machine} (hmake : make? settings = .ok start)
    (threshold : Level) {ops : List Operation} (hops : ∀ op ∈ ops, op.adjusts = false) :
    (start.after threshold ops).stack.Holds (Nesting.start.run start (start.history ops)) ∧
    ((start.transcript threshold ops).filter fun e => e.level = .warning) =
      (Nesting.start.allWarnings start (start.history ops)).filter
        (fun e => e.level.passes threshold) ∧
    (∀ {before rest : List Action} {r : Action} {p : Word} {calls : List Word},
      start.history ops = before ++ r :: rest → r.move = .leave →
      (Nesting.start.run start before).calls = p :: calls →
      (start.actAll (before ++ [r])).pc.toNat = (p.toNat + 2) % 4096) ∧
    ∀ {before inner rest : List Action} {c r : Action},
      start.history ops = before ++ (c :: inner ++ r :: rest) →
      c.move = .enter → Matched inner → r.move = .leave →
      (start.actAll before).neverFull (c :: inner) →
      ((start.actAll before).actAll (c :: inner ++ [r])).pc.toNat =
          ((start.actAll before).pc.toNat + 2) % 4096 ∧
        ((start.actAll before).actAll (c :: inner ++ [r])).stack.pointer =
          (start.actAll before).stack.pointer ∧
        ((start.actAll before).actAll (c :: inner ++ [r])).stack.depth =
          (start.actAll before).stack.depth := by
  have hstart : start.stack.Holds Nesting.start := by
    unfold make? at hmake
    split_ifs at hmake
    cases hmake
    exact holds_initial settings
  have hactions : ∀ a ∈ start.history ops, a.adjusts = false := by
    refine forall_mem_history ?_ hops
    intro n op a hop ha
    exact adjusts_of_mem_actions hop ha
  refine ⟨?_, ?_, ?_, ?_⟩
  · rw [after_eq_actAll]
    exact holds_actAll hstart hactions
  · rw [transcript_eq_reportAll, List.filter_filter, ← warnings_actAll hstart hactions,
      List.filter_filter]
    simp only [Bool.and_comm]
  · intro before rest r p calls hsplit hr hcalls
    rw [hsplit] at hactions
    obtain ⟨hbefore, _⟩ := List.forall_mem_append.mp hactions
    rw [actAll_append]
    exact pc_of_leave (holds_actAll hstart hbefore) hr hcalls
  · intro before inner rest c r hsplit hc hinner hr hroom
    rw [hsplit] at hactions
    obtain ⟨hbefore, hsegment⟩ := List.forall_mem_append.mp hactions
    have has : ∀ a ∈ c :: inner ++ [r], a.adjusts = false := by
      intro a ha
      apply hsegment
      rcases List.mem_append.mp ha with hin | hlast
      · exact List.mem_append_left _ hin
      · rw [List.mem_singleton.mp hlast]
        exact List.mem_append_right _ List.mem_cons_self
    exact return_matched (holds_actAll hstart hbefore) hc hr hinner has hroom

/-- A call from the start of a program, and the return from it. -/
theorem calls_nest_once :
    let start := initial ⟨.int 600, .int 1, .absent, ⟨[]⟩⟩
    (start.after .info [.execute 0x2300, .execute 0x00EE]).stack.depth = 0 ∧
      (start.actAll [.note 0x2300, .execute (some (.instruction (.call 0x300))), .note 0x00EE,
        .execute (some (.instruction .ret))]).pc.toNat = 0x202 := by
  intro start
  have hops : ∀ op ∈ ([.execute 0x2300, .execute 0x00EE] : List Operation),
      op.adjusts = false := by decide
  have hhistory : start.history [.execute 0x2300, .execute 0x00EE] =
      [.note 0x2300] ++ (.execute (some (.instruction (.call 0x300))) :: [.note 0x00EE] ++
        .execute (some (.instruction .ret)) :: []) := rfl
  have hmake : make? ⟨.int 600, .int 1, .absent, ⟨[]⟩⟩ = .ok start := rfl
  obtain ⟨hholds, _, _, hreturn⟩ := calls_nest hmake .info hops
  constructor
  · rw [hholds.depth_eq, hhistory]
    rfl
  · exact (hreturn hhistory rfl (.stay rfl .nil) rfl ⟨fun _ => rfl, nofun, trivial⟩).1

end Machine
end ChipEight

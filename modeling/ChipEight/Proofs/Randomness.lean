import ChipEight.Proofs.Likeness
import ChipEight.Proofs.Resolution
import ChipEight.Proofs.WellFormed

/-!
# Randomness

Random bytes are asked for one after the other, and by one instruction only. The count of
those asked for is therefore a count of the instructions executed, and a run can tell two
random scripts apart only once it has executed more of these than the scripts have bytes in
common.
-/

namespace ChipEight

/-- Whether a random byte is asked for. A call that names a register that does not exist
asks for its byte before it fails. -/
def Action.rolls : Action → Bool
  | execute (some (.instruction (.random _ _))) => true
  | execute (some (.randomInVain _)) => true
  | _ => false

namespace RandomScript

theorem getElem?_eq_some_byte {s : RandomScript} (h : s.bytes ≠ []) (n : Nat) :
    s.bytes[n % s.bytes.length]? = some (s.byte n) := by
  have hlt : n % s.bytes.length < s.bytes.length := Nat.mod_lt n (List.length_pos_of_ne_nil h)
  rw [byte, List.getElem?_eq_getElem hlt, Option.getD_some]

end RandomScript

namespace Machine

/-! ### The count of random bytes -/

theorem randomCount_act (m : Machine) (a : Action) :
    (m.act a).randomCount = m.randomCount + a.rolls.toNat := by
  cases a with
  | execute c =>
    match c with
    | none => rfl
    | some (.instruction i) => cases i <;> rfl
    | some (.compare _ _ _) | some (.drawRows _ _ _) | some (.pointAt _) | some (.waitFor _)
    | some (.randomInVain _) => rfl
    | some (.store last) | some (.load last) =>
      simp only [act, carryOut, call, afterBlock]
      split_ifs <;> rfl
  | tick =>
    rw [act, tick_eq]
    rfl
  | press k =>
    obtain ⟨registers, blocked, hpress⟩ := m.exists_press k
    rw [act, hpress]
    rfl
  | adjust b => cases b <;> rfl
  | _ => rfl

theorem randomCount_actAll (m : Machine) (as : List Action) :
    (m.actAll as).randomCount = m.randomCount + as.countP Action.rolls := by
  induction as generalizing m with
  | nil => rfl
  | cons a as ih =>
    rw [actAll_cons, ih, randomCount_act, List.countP_cons]
    cases a.rolls <;> simp [Nat.add_comm, Nat.add_left_comm]

theorem randomCount_apply (m : Machine) (threshold : Level) (op : Operation) :
    (m.apply threshold op).machine.randomCount =
      m.randomCount + (m.actions op).countP Action.rolls := by
  rw [← randomCount_actAll, ← outcome_machine threshold]
  rfl

theorem register_act_random (m : Machine) (x : Register) (b : Byte) :
    (m.act (.execute (some (.instruction (.random x b))))).register x =
      m.settings.random.byte m.randomCount &&& b := by
  have hstored : (m.act (.execute (some (.instruction (.random x b))))).register x =
      (m.setRegister x (b &&& m.settings.random.byte m.randomCount)).register x := rfl
  rw [hstored, register_setRegister, if_pos rfl, BitVec.and_comm]

theorem eq_random_of_randomInVain {mnemonic : String} {operands : List Int} {e : MachineError}
    (h : Call.ofOperands mnemonic operands = .ok (.randomInVain e)) :
    mnemonic = "RND" ∧ ∃ x kk, operands = [x, kk] := by
  unfold Call.ofOperands at h
  split at h
  · cases h
  · rename_i s hs
    split_ifs at h with hfit
    obtain ⟨i, rfl⟩ := Instruction.exists_mnemonic hs
    rcases Call.resolves_ofFitting hs hfit with hresolves | ⟨hrandom, _⟩
    · rw [h] at hresolves
      exact absurd rfl (hresolves e)
    · rw [hrandom] at hs
      cases hs
      exact ⟨hrandom, List.length_eq_two.mp (of_decide_eq_true hfit)⟩

/-- A random number for a register that does not exist: its byte has been asked for when the
register turns out to be missing. -/
theorem apply_random_of_missing (m : Machine) (threshold : Level) {x : Int} {e : MachineError}
    (h : register? .write x = .error e) (kk : Int) :
    (m.apply threshold (.call "RND" [x, kk])).answer = .error e ∧
      (m.apply threshold (.call "RND" [x, kk])).machine =
        { m with randomCount := m.randomCount + 1 } := by
  have hcall : Call.ofOperands "RND" [x, kk] = .ok (.randomInVain e) := by
    change Except.ok (Call.rolling x (BitVec.ofInt 8 kk)) = _
    rw [Call.rolling, h]
  simp only [apply, outcome, hcall]
  exact ⟨rfl, rfl⟩

/-- What is rejected asks for no random byte, unless it is a random number for a register
that does not exist. -/
theorem countP_rolls_of_error {m : Machine} {threshold : Level} {op : Operation}
    {e : MachineError} (h : (m.apply threshold op).answer = .error e)
    (hop : ∀ x kk, op ≠ .call "RND" [x, kk]) :
    (m.actions op).countP Action.rolls = 0 := by
  change (m.outcome threshold op).answer = .error e at h
  apply List.countP_eq_zero.mpr
  intro a ha hrolls
  have hcause := causes_of_mem_actions ha
  obtain ⟨c, rfl⟩ : ∃ c, a = .execute (some c) := by
    cases a with
    | execute c =>
      cases c with
      | none => cases hrolls
      | some c => exact ⟨c, rfl⟩
    | _ => cases hrolls
  cases op with
  | cycle => cases h
  | execute word => cases h
  | run seconds =>
    cases hcount : m.cyclesFor seconds with
    | ok count => simp [outcome, hcount] at h
    | error e' => simp [actions, hcount] at ha
  | call mnemonic operands =>
    cases hcall : Call.ofOperands mnemonic operands with
    | error e' => simp [actions, hcall] at ha
    | ok c' =>
      simp only [actions, hcall, List.mem_singleton, Action.execute.injEq,
        Option.some.injEq] at ha
      subst ha
      cases c with
      | instruction i => simp [outcome, hcall, Call.result, Except.map] at h
      | randomInVain e' =>
        obtain ⟨rfl, x, kk, rfl⟩ := eq_random_of_randomInVain hcall
        exact hop x kk rfl
      | _ => cases hrolls
  | _ => cases hcause

/-! ### Scripts with the same beginning -/

def withScript (m : Machine) (script : RandomScript) : Machine :=
  { m with settings := { m.settings with random := script } }

/-- Two machines that differ in the random script at most, and not in its first bytes. -/
def SameButScript (limit : Nat) (script : RandomScript) (m n : Machine) : Prop :=
  (∀ k < limit, m.settings.random.byte k = script.byte k) ∧ n = m.withScript script

section Scripts

variable {m : Machine} {limit : Nat} {script : RandomScript}

theorem carryOut_withScript {c : Option Call}
    (h : (Action.execute c).rolls = true →
      m.settings.random.byte m.randomCount = script.byte m.randomCount) :
    (m.withScript script).carryOut c = (m.carryOut c).withScript script := by
  match c with
  | none => rfl
  | some (.instruction i) =>
    cases i with
    | random x b =>
      simp only [carryOut, call, execute, perform, h rfl]
      rfl
    | _ => rfl
  | some (.compare _ _ _) | some (.drawRows _ _ _) | some (.pointAt _) | some (.waitFor _)
  | some (.randomInVain _) => rfl
  | some (.store last) | some (.load last) =>
    simp only [carryOut, call, afterBlock]
    split_ifs <;> rfl

theorem act_withScript {a : Action}
    (h : a.rolls = true → m.settings.random.byte m.randomCount = script.byte m.randomCount) :
    (m.withScript script).act a = (m.act a).withScript script := by
  cases a with
  | execute c => exact carryOut_withScript h
  | tick =>
    simp only [act, tick_eq]
    rfl
  | press k =>
    obtain ⟨registers, blocked, hpress⟩ := m.exists_press_of_same k
    rw [act, act, hpress m rfl rfl, hpress (m.withScript script) rfl rfl]
    rfl
  | adjust b => cases b <;> rfl
  | note _ | trace _ | decrement | release _ | reset | load _ _ | shown => rfl

/-- The scripts make no difference as long as no byte is asked for that only one has. -/
theorem sameButScript_bisimulation (limit : Nat) (script : RandomScript) :
    BisimulationAlong (fun m a => a.rolls = true → m.randomCount < limit) (fun _ => true)
      (SameButScript limit script) where
  alike := by
    rintro m n ⟨_, rfl⟩
    exact ⟨rfl, rfl, rfl, rfl⟩
  act := by
    rintro m n a hfew ⟨hbytes, rfl⟩
    refine ⟨?_, act_withScript fun hrolls => hbytes _ (hfew hrolls)⟩
    rw [settings_act]
    exact hbytes
  reports := by
    rintro m n a _ ⟨_, rfl⟩
    have hsame : (m.withScript script).reports a = m.reports a := congrArg₂ (· ++ ·)
      (timersReport_congr rfl rfl rfl a) (processorReport_congr rfl rfl rfl a)
    rw [hsame]

/-- The bytes asked for in a run come one after the other, so the last one bounds them all. -/
theorem along_of_randomCount_le {as : List Action}
    (h : m.randomCount + as.countP Action.rolls ≤ limit) :
    Along (fun n a => a.rolls = true → n.randomCount < limit) m as := by
  induction as generalizing m with
  | nil => trivial
  | cons a as ih =>
    rw [List.countP_cons] at h
    constructor
    · intro hrolls
      rw [if_pos hrolls] at h
      omega
    · apply ih
      rw [randomCount_act]
      cases hrolls : a.rolls <;> simp [hrolls] at h ⊢ <;> omega

end Scripts

theorem make?_withScript {settings : Settings} {start : Machine}
    (h : make? settings = .ok start) (script : RandomScript) :
    make? { settings with random := script } = .ok (start.withScript script) := by
  cases eq_initial_of_make? h
  unfold make? at h ⊢
  split_ifs at h with hsmall
  rw [if_neg hsmall]
  rfl

/-- Two runs of the same operations come to the same, as long as no more random bytes are
asked for than their scripts have in common. -/
theorem apply_after_withScript {start : Machine} {limit : Nat} {script : RandomScript}
    (hbytes : ∀ k < limit, start.settings.random.byte k = script.byte k) (threshold : Level)
    {ops : List Operation} {op : Operation}
    (hcount : start.randomCount + (start.history (ops ++ [op])).countP Action.rolls ≤ limit) :
    let o := (start.after threshold ops).apply threshold op
    let o' := ((start.withScript script).after threshold ops).apply threshold op
    o'.machine = o.machine.withScript script ∧ o'.log = o.log ∧ o'.answer = o.answer := by
  have hbisim := sameButScript_bisimulation limit script
  have hkept := along_of_randomCount_le hcount
  rw [history_append, along_append] at hkept
  obtain ⟨hbefore, hlast⟩ := hkept
  rw [← after_eq_actAll threshold, history, history, List.append_nil] at hlast
  have hstart : SameButScript limit script start (start.withScript script) := ⟨hbytes, rfl⟩
  have hsame := hbisim.after hstart threshold threshold ops hbefore
  refine ⟨(hbisim.apply hsame threshold threshold op hlast).2,
    (hbisim.log_eq hsame threshold op hlast).symm, ?_⟩
  apply Eq.symm
  apply (hbisim.alike hsame).answer threshold threshold op
  intro _
  rw [hsame.2]
  rfl

/-- The random bytes asked for are as many as the random numbers executed. Each of these
stores the byte of the script that is next, masked; nothing else moves the script on, and
nothing moves it back. Of what is rejected, only a direct call for a random number whose
register does not exist has asked for its byte by then. So scripts with the same beginning
make no difference until a byte past it is asked for. No call has loaded a register with
anything but a byte: a run could break off where such a register is stored. -/
theorem random_bytes_in_order {settings : Settings} {start : Machine}
    (hmake : make? settings = .ok start) (hscript : settings.random.bytes ≠ [])
    (threshold : Level) {ops : List Operation} (_hops : ∀ op ∈ ops, op.storesBytes = true) :
    let now := start.after threshold ops
    let script := settings.random.bytes
    now.randomCount = (start.history ops).countP Action.rolls ∧
    (∀ {before later : List Action} {x : Register} {mask : Byte},
      start.history ops = before ++ .execute (some (.instruction (.random x mask))) :: later →
      ∃ byte, script[before.countP Action.rolls % script.length]? = some byte ∧
        ((start.actAll before).act (.execute (some (.instruction (.random x mask))))).register x =
          byte &&& mask ∧
        (byte &&& mask) &&& ~~~mask = 0) ∧
    (∀ a, a.rolls = false → (now.act a).randomCount = now.randomCount) ∧
    (now.isBlocked = true → now.cycle.randomCount = now.randomCount) ∧
    (∀ op e, (now.apply threshold op).answer = .error e →
      (∀ x kk, op ≠ .call "RND" [x, kk]) →
      (now.apply threshold op).machine.randomCount = now.randomCount) ∧
    (∀ x kk e, register? .write x = .error e →
      (now.apply threshold (.call "RND" [x, kk])).answer = .error e ∧
        (now.apply threshold (.call "RND" [x, kk])).machine =
          { now with randomCount := now.randomCount + 1 }) ∧
    ∀ other : RandomScript, ∃ twin, make? { settings with random := other } = .ok twin ∧
      ∀ (limit : Nat) (op : Operation), op.storesBytes = true →
        (∀ k < limit, settings.random.byte k = other.byte k) →
        (start.history (ops ++ [op])).countP Action.rolls ≤ limit →
        let o := now.apply threshold op
        let o' := (twin.after threshold ops).apply threshold op
        o'.machine = o.machine.withScript other ∧ o'.log = o.log ∧ o'.answer = o.answer := by
  intro now script
  have hzero : start.randomCount = 0 := by
    rw [eq_initial_of_make? hmake]
    rfl
  have hsettings : start.settings = settings := by
    rw [eq_initial_of_make? hmake]
    rfl
  refine ⟨?_, ?_, ?_, ?_, ?_, ?_, ?_⟩
  · rw [← Nat.zero_add (List.countP _ _), ← hzero, ← randomCount_actAll]
    exact congrArg randomCount (after_eq_actAll threshold start ops)
  · intro before later x mask _
    have hcount : (start.actAll before).randomCount = before.countP Action.rolls := by
      rw [randomCount_actAll, hzero, Nat.zero_add]
    refine ⟨_, RandomScript.getElem?_eq_some_byte hscript _, ?_, ?_⟩
    · rw [register_act_random, settings_actAll, hsettings, hcount]
    · rw [BitVec.and_assoc, BitVec.and_not_self]
      exact BitVec.and_zero
  · intro a ha
    rw [randomCount_act, ha]
    rfl
  · intro hblocked
    rw [cycle_eq_actAll, randomCount_actAll, cycleActions, if_pos hblocked]
    rfl
  · intro op e herror hop
    rw [randomCount_apply, countP_rolls_of_error herror hop, Nat.add_zero]
  · intro x kk e hmissing
    exact apply_random_of_missing now threshold hmissing kk
  · intro other
    refine ⟨start.withScript other, make?_withScript hmake other, ?_⟩
    intro limit op _ hbytes hfew
    rw [← hsettings] at hbytes
    rw [← Nat.zero_add (List.countP _ _), ← hzero] at hfew
    exact apply_after_withScript hbytes threshold hfew

/-- Two random numbers with a reset and a wait in between. Another script with the same first
two bytes would have done as well. -/
theorem random_bytes_in_order_across_reset :
    let start := initial ⟨.int 600, .int 1, .speaker, ⟨[7, 9]⟩⟩
    let twin := initial ⟨.int 600, .int 1, .speaker, ⟨[7, 9, 1]⟩⟩
    let ops : List Operation :=
      [.execute 0xC0FF, .reset, .execute 0xF30A, .cycle, .event (.keyDown 49)]
    let last : Operation := .execute 0xC10C
    let o := (start.after .info ops).apply .info last
    let o' := (twin.after .info ops).apply .info last
    (start.after .info ops).randomCount = 1 ∧ o.machine.register 1 = 8 ∧
      o'.machine = o.machine.withScript ⟨[7, 9, 1]⟩ := by
  intro start twin ops last o o'
  have hmake : make? ⟨.int 600, .int 1, .speaker, ⟨[7, 9]⟩⟩ = .ok start := rfl
  have hops : ∀ op ∈ ops, op.storesBytes = true := by decide
  obtain ⟨hcount, _, _, _, _, _, htwin⟩ := random_bytes_in_order hmake (by decide) .info hops
  obtain ⟨_, hother, hsame⟩ := htwin ⟨[7, 9, 1]⟩
  cases hother
  have hbytes : ∀ k < 2,
      (⟨[7, 9]⟩ : RandomScript).byte k = (⟨[7, 9, 1]⟩ : RandomScript).byte k := by
    decide
  obtain ⟨hmachine, _⟩ := hsame 2 last rfl hbytes (by decide +kernel)
  exact ⟨hcount.trans (by decide +kernel), by decide +kernel, hmachine⟩

/-- A call that is rejected has asked for a random byte, and no random number is stored. -/
theorem rejected_random_asks_for_byte :
    let start := initial ⟨.int 600, .int 1, .speaker, ⟨[7]⟩⟩
    let o := start.apply .warning (.call "RND" [16, 255])
    make? ⟨.int 600, .int 1, .speaker, ⟨[7]⟩⟩ = .ok start ∧
      o.answer = .error (.outOfRange .write) ∧ o.machine.registers = start.registers ∧
      start.randomCount = 0 ∧ o.machine.randomCount = 1 := by
  intro start o
  obtain ⟨hanswer, hmachine⟩ :=
    apply_random_of_missing start .warning (show register? .write 16 = .error _ by rfl) 255
  have hregisters := congrArg registers hmachine
  have hcount := congrArg randomCount hmachine
  exact ⟨rfl, hanswer, hregisters, rfl, hcount⟩

end Machine
end ChipEight

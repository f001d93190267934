import ChipEight.Proofs.WellFormed

/-!
# Dispatch

Executing an instruction with everything looked up on the way: its mnemonic among the
known ones, its operands counted, the registers they name, and every other place that
is read or written. No look-up fails for a decoded instruction, and what comes out is
the machine that executing it gives.
-/

namespace ChipEight

namespace Instruction

/-- What an instruction asks for when it is called by its mnemonic. -/
def request : Instruction → Call
  | skipEqByte x b => .compare x b.toNat true
  | skipNeByte x b => .compare x b.toNat false
  | shiftRight x _ => .instruction (shiftRight x 0)
  | shiftLeft x _ => .instruction (shiftLeft x 0)
  | loadIndex a => .pointAt a.toNat
  | draw x y rows => .drawRows x y rows.val
  | waitKey x => .waitFor x.val
  | store x => .store x.val
  | load x => .load x.val
  | i => .instruction i

theorem ofOperands_mnemonic (i : Instruction) :
    Call.ofOperands i.mnemonic (i.operands.map Int.ofNat) = .ok i.request := by
  have hword : ∀ a : Word, BitVec.ofInt 16 (Int.ofNat a.toNat) = a := by simp
  have hbyte : ∀ b : Byte, BitVec.ofInt 8 (Int.ofNat b.toNat) = b := by simp
  cases i with
  | clear | ret | loadIndex a | waitKey x | store x | load x => rfl
  | sys a | jump a | call a | jumpOffset a =>
    change Except.ok (Call.instruction _) = _
    rw [hword]
    rfl
  | skipEqByte x b | skipNeByte x b =>
    change Call.comparison _ x.val b.toNat = _
    rw [Call.comparison, Machine.register?_val]
    rfl
  | loadByte x b | addByte x b =>
    change Call.single _ _ x.val = _
    rw [Call.single, Machine.register?_val, hbyte]
    rfl
  | random x b =>
    change Except.ok (Call.rolling x.val _) = _
    rw [Call.rolling, Machine.register?_val, hbyte]
    rfl
  | copy x y =>
    change Call.copying x.val y.val = _
    rw [Call.copying, Machine.register?_val, Machine.register?_val]
    rfl
  | skipEqReg x y | skipNeReg x y | or x y | and x y | xor x y | addReg x y =>
    change Call.pair _ x.val y.val = _
    rw [Call.pair, Machine.register?_val, Machine.register?_val]
    rfl
  | sub x y | subFrom x y =>
    change Call.pairBackwards _ x.val y.val = _
    rw [Call.pairBackwards, Machine.register?_val, Machine.register?_val]
    rfl
  | draw x y rows =>
    have hrows : min (rows.val : Int).toNat Display.height = rows.val := by
      have hlt := rows.isLt
      simp only [Int.toNat_natCast, Display.height]
      omega
    change Call.drawing x.val y.val rows.val = _
    rw [Call.drawing, Machine.register?_val, Machine.register?_val]
    change Except.ok (Call.drawRows x y (min (rows.val : Int).toNat Display.height)) = _
    rw [hrows]
    rfl
  | shiftRight x _ | shiftLeft x _ | skipPressed x | skipReleased x | readDelay x
  | setDelay x | setSound x | addIndex x | glyph x | decimal x =>
    change Call.single _ _ x.val = _
    rw [Call.single, Machine.register?_val]
    rfl

theorem result_request (i : Instruction) : i.request.result = .ok () := by
  cases i with
  | store x | load x =>
    have hlast : (x.val : Int) < 16 := by omega
    simp [request, Call.result, hlast]
  | _ => rfl

end Instruction

namespace Machine

theorem call_request (m : Machine) (i : Instruction) :
    m.call i.request = m.execute (some i) := by
  cases i with
  | skipEqByte x b =>
    have heq : ∀ a : Byte, (decide ((a.toNat : Int) = b.toNat) == true) = (a == b) := by
      intro a
      by_cases hab : a = b <;> simp [hab, BitVec.toNat_inj]
    simp only [Instruction.request, call, heq, execute, perform]
  | skipNeByte x b =>
    have hne : ∀ a : Byte, (decide ((a.toNat : Int) = b.toNat) == false) = (a != b) := by
      intro a
      by_cases hab : a = b <;> simp [hab, BitVec.toNat_inj]
    simp only [Instruction.request, call, hne, execute, perform]
  | store x | load x =>
    have hlast : (x.val : Int) < 16 := by omega
    have hcount : ((x.val : Int) + 1).toNat = x.val + 1 := by omega
    simp only [Instruction.request, call, afterBlock, if_pos hlast, hcount, execute, perform]
  | _ => rfl

/-- A place that is read or written, in a row of the given length. -/
structure Reach where
  access : Access
  length : Nat
  number : Int

def reachMemory (m : Machine) (access : Access) (k : Nat) : Reach :=
  ⟨access, Memory.size, (m.index + k) % Memory.size⟩

/-- The places an instruction reads and writes besides the registers it names. A sprite
stops at the right and at the bottom edge, and only the number of a key is looked up. -/
def reaches (m : Machine) : Instruction → List Reach
  | .ret => [⟨.read, 16, (m.stack.pointer - 1).val⟩]
  | .call _ => [⟨.write, 16, m.stack.pointer.val⟩]
  | .draw x y rows =>
    (List.range rows.val).flatMap fun k =>
      if Display.height ≤ (m.register y).toNat + k then []
      else m.reachMemory .read k ::
        (List.range 8).flatMap fun j =>
          if Display.width ≤ (m.register x).toNat + j then []
          else [⟨.read, Display.width, ((m.register x).toNat + j : Nat)⟩,
            ⟨.write, Display.height, ((m.register y).toNat + k : Nat)⟩]
  | .skipPressed x | .skipReleased x =>
    if (m.register x).toNat < 16 then [⟨.read, 16, (m.register x).toNat⟩] else []
  | .decimal _ => (List.range 3).map (m.reachMemory .write)
  | .store x =>
    (List.range (x.val + 1)).flatMap fun (k : Nat) => [⟨.read, 16, k⟩, m.reachMemory .write k]
  | .load x =>
    (List.range (x.val + 1)).flatMap fun k => [m.reachMemory .read k, ⟨.write, 16, k⟩]
  | _ => []

/-- The numbers an instruction stores in memory, which only takes bytes. -/
def stored (m : Machine) : Instruction → List Int
  | .decimal x =>
    let value : Int := (m.register x).toNat
    [value / 100, value / 10 % 10, value % 10]
  | .store x => (m.registers.toList.take (x.val + 1)).map fun b => (b.toNat : Int)
  | _ => []

def fetchReaches (m : Machine) : List Reach :=
  [⟨.read, Memory.size, (m.pc.toNat % Memory.size : Nat)⟩,
    ⟨.read, Memory.size, ((m.pc.toNat + 1) % Memory.size : Nat)⟩]

def findAll : List Reach → Except MachineError Unit
  | [] => .ok ()
  | r :: rest => do
    let _ ← place? r.access r.length r.number
    findAll rest

def dispatch (m : Machine) : Option Instruction → Except MachineError Machine
  | none => .ok (m.execute none)
  | some i => do
    let c ← Call.ofOperands i.mnemonic (i.operands.map Int.ofNat)
    findAll (m.reaches i)
    if imageBytes? (m.stored i) = none then throw .byteOutOfRange
    c.result
    return m.call c

def dispatchWord (m : Machine) (word : Int) : Except MachineError Machine :=
  (m.withOperand word).dispatch (Instruction.ofInt? word)

/-- One cycle with everything looked up on the way. -/
def dispatchCycle (m : Machine) : Except MachineError Machine := do
  findAll m.fetchReaches
  if m.prepare.isBlocked then return m.prepare
  else m.prepare.dispatch (Instruction.decode m.fetch)

/-- Whether a place exists, in a row short enough to be numbered. -/
def Reach.Exists (r : Reach) : Prop :=
  0 ≤ r.number ∧ r.number < r.length ∧ r.length ≤ 4096

theorem findAll_eq_ok {rs : List Reach} (h : ∀ r ∈ rs, r.Exists) : findAll rs = .ok () := by
  induction rs with
  | nil => rfl
  | cons r rest ih =>
    obtain ⟨⟨hlow, hhigh, hlength⟩, hrest⟩ := List.forall_mem_cons.mp h
    have hplace : place? r.access r.length r.number = .ok r.number.toNat := by
      have hnumber : (r.number.toNat : Int) = r.number := Int.toNat_of_nonneg hlow
      rw [← hnumber]
      exact place?_natCast r.access (by omega) (by omega)
    rw [findAll, hplace]
    exact ih hrest

theorem exists_reachMemory (m : Machine) (access : Access) (k : Nat) :
    (m.reachMemory access k).Exists := by
  simp only [reachMemory, Reach.Exists, Memory.size]
  omega

theorem exists_of_mem_fetchReaches {m : Machine} {r : Reach} (h : r ∈ m.fetchReaches) :
    r.Exists := by
  simp only [fetchReaches, List.mem_cons, List.not_mem_nil, or_false] at h
  rcases h with rfl | rfl <;> simp only [Reach.Exists, Memory.size] <;> omega

theorem exists_of_mem_reaches {m : Machine} {i : Instruction} {r : Reach}
    (h : r ∈ m.reaches i) : r.Exists := by
  cases i with
  | ret =>
    rw [List.mem_singleton.mp h]
    refine ⟨?_, ?_, ?_⟩ <;> simp
  | call a =>
    rw [List.mem_singleton.mp h]
    refine ⟨?_, ?_, ?_⟩ <;> simp
  | draw x y rows =>
    obtain ⟨k, _, hk⟩ := List.mem_flatMap.mp h
    split at hk
    · cases hk
    · rcases List.mem_cons.mp hk with rfl | hpixel
      · exact exists_reachMemory m .read k
      · obtain ⟨j, _, hj⟩ := List.mem_flatMap.mp hpixel
        split at hj
        · cases hj
        · simp only [List.mem_cons, List.not_mem_nil, or_false] at hj
          rcases hj with rfl | rfl <;>
            simp only [Reach.Exists, Display.width, Display.height] at * <;> omega
  | skipPressed x | skipReleased x =>
    simp only [reaches] at h
    split at h
    · rw [List.mem_singleton.mp h]
      simp only [Reach.Exists]
      omega
    · cases h
  | decimal x =>
    obtain ⟨k, _, rfl⟩ := List.mem_map.mp h
    exact exists_reachMemory m .write k
  | store x =>
    obtain ⟨k, hk, hr⟩ := List.mem_flatMap.mp h
    have hlt := x.isLt
    have hrange := List.mem_range.mp hk
    simp only [List.mem_cons, List.not_mem_nil, or_false] at hr
    rcases hr with rfl | rfl
    · simp only [Reach.Exists]
      omega
    · exact exists_reachMemory m .write k
  | load x =>
    obtain ⟨k, hk, hr⟩ := List.mem_flatMap.mp h
    have hlt := x.isLt
    have hrange := List.mem_range.mp hk
    simp only [List.mem_cons, List.not_mem_nil, or_false] at hr
    rcases hr with rfl | rfl
    · exact exists_reachMemory m .read k
    · simp only [Reach.Exists]
      omega
  | _ => cases h

theorem mem_stored {m : Machine} {i : Instruction} {n : Int} (h : n ∈ m.stored i) :
    0 ≤ n ∧ n < 256 := by
  cases i with
  | decimal x =>
    have hlt := (m.register x).isLt
    simp only [stored, List.mem_cons, List.not_mem_nil, or_false] at h
    omega
  | store x =>
    obtain ⟨b, _, rfl⟩ := List.mem_map.mp h
    have hlt := b.isLt
    omega
  | _ => cases h

theorem imageBytes?_stored (m : Machine) (i : Instruction) :
    imageBytes? (m.stored i) ≠ none := by
  have hall : ∀ n ∈ m.stored i, 0 ≤ n ∧ n < 256 := by
    intro n hn
    exact mem_stored hn
  simpa [imageBytes?] using hall

/-- Nothing that is looked up for a decoded instruction is missing. -/
theorem dispatch_eq_execute (m : Machine) (i : Option Instruction) :
    m.dispatch i = .ok (m.execute i) := by
  cases i with
  | none => rfl
  | some i =>
    have hfind : findAll (m.reaches i) = .ok () := by
      apply findAll_eq_ok
      intro r hr
      exact exists_of_mem_reaches hr
    have hbytes := imageBytes?_stored m i
    simp only [dispatch, i.ofOperands_mnemonic, hfind, if_neg hbytes, ← m.call_request]
    change i.request.result.bind (fun _ => .ok (m.call i.request)) = _
    rw [i.result_request]
    rfl

theorem dispatchWord_eq_executeWord (m : Machine) (word : Int) :
    m.dispatchWord word = .ok (m.executeWord word) :=
  dispatch_eq_execute _ _

theorem dispatchCycle_eq_cycle (m : Machine) : m.dispatchCycle = .ok m.cycle := by
  have hfind : findAll m.fetchReaches = .ok () := by
    apply findAll_eq_ok
    intro r hr
    exact exists_of_mem_fetchReaches hr
  rw [dispatchCycle, hfind, dispatch_eq_execute, cycle]
  cases m.prepare.isBlocked <;> rfl

/-- Whatever is done to a new machine, accepted or rejected, it stays well-formed, and
neither a cycle nor the execution of a word fails. -/
theorem no_failure_after {settings : Settings} {d : Int}
    (hd : settings.timerDivider = .int d) (hpos : 1 ≤ d) (threshold : Level)
    {ops : List Operation} (hops : ∀ op ∈ ops, op.isOrdinary = true) :
    ∃ start, make? settings = .ok start ∧
      (start.after threshold ops).WellFormed ∧
      (start.after threshold ops).Sized ∧
      ((start.after threshold ops).timers.counter : Int) < d ∧
      (start.after threshold ops).dispatchCycle = .ok (start.after threshold ops).cycle ∧
      ∀ word, (start.after threshold ops).dispatchWord word =
        .ok ((start.after threshold ops).executeWord word) := by
  have hstart : (initial settings).WellFormed := WellFormed.initial hd hpos
  have hwell := hstart.after threshold hops
  refine ⟨initial settings, make?_eq_ok hd hpos, hwell, sized _, ?_, dispatchCycle_eq_cycle _,
    dispatchWord_eq_executeWord _⟩
  obtain ⟨e, he, hlt⟩ := hwell.counter_lt
  have hsettings : ((initial settings).after threshold ops).settings = settings :=
    settings_after threshold (initial settings) ops
  rw [hsettings, hd] at he
  cases he
  exact hlt

/-- A program that calls itself over and over, until the stack runs over. -/
theorem no_failure_after_endless_calls :
    ∃ start, make? ⟨.int 600, .int 2, .absent, ⟨[7]⟩⟩ = .ok start ∧
      (start.after .info [.load (.integers [0x22, 0x00]) 0x200, .run (.int 1)]).WellFormed := by
  have hops : ∀ op ∈ ([.load (.integers [0x22, 0x00]) 0x200, .run (.int 1)] : List Operation),
      op.isOrdinary = true := by decide
  have hd : (⟨.int 600, .int 2, .absent, ⟨[7]⟩⟩ : Settings).timerDivider = .int 2 := rfl
  obtain ⟨start, hmake, hwell, _⟩ := no_failure_after hd (by decide) .info hops
  exact ⟨start, hmake, hwell⟩

end Machine
end ChipEight

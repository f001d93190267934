import ChipEight.Keyboard
import ChipEight.Machine.Call
import ChipEight.Machine.Cycle
import ChipEight.Machine.Dump
import ChipEight.Machine.Program
import ChipEight.Window.Viewport

/-!
# Operations

Everything that can be asked of a machine, as data. Applying an operation gives
the machine after it, the messages that pass a threshold, and a result or the
cause of its rejection. Sequences of operations are applied one after the other
up to the first that is rejected.
-/

namespace ChipEight

/-- A single field set by hand. -/
inductive Adjustment
  | register (x : Register) (b : Byte)
  | index (w : Word)
  | pc (w : Word)
  | pointer (p : Fin 16)
  | delay (b : Byte)
  | sound (b : Byte)
  | memory (address : Nat) (bytes : List Byte)
  | slot (k : Fin 16) (w : Word)
  | drawn (b : Bool)
  deriving DecidableEq

inductive Operation
  | load (image : Image) (offset : Int)
  | cycle
  | tick
  | decrement
  | reset
  | run (seconds : Number)
  | count (seconds : Number)
  | execute (word : Int)
  | call (mnemonic : String) (operands : List Int)
  | skip
  | press (offer : KeyOffer)
  | release (offer : KeyOffer)
  | pixel (x y : Int)
  | event (e : Event)
  | render (view : Viewport)
  | fetch
  | dump
  | adjust (a : Adjustment)
  deriving DecidableEq

/-- Whether the registers have room for what an operation stores there. Only a direct call
can hand them a number that is no byte; the machine would keep it and go on with it. -/
def Operation.storesBytes : Operation → Bool
  | .call "LD_BYTE" [x, value] =>
    !(Machine.register? .write x).isOk || decide (0 ≤ value ∧ value ≤ 255)
  | _ => true

inductive Answer
  | done
  | integer (n : Int)
  | flag (b : Bool)
  | text (s : String)
  | window (s : Surface)
  deriving DecidableEq

structure Outcome where
  machine : Machine
  log : List Message
  answer : Except MachineError Answer

namespace Machine

/-- A new machine; the timers have to tick at most once a cycle. A divider that is
not a number is let through, and no timer ever ticks. -/
def make? (settings : Settings) : Except MachineError Machine :=
  if settings.timerDivider.lt (.int 1) then .error .dividerTooSmall
  else .ok (initial settings)

theorem eq_initial_of_make? {settings : Settings} {m : Machine} (h : make? settings = .ok m) :
    m = initial settings := by
  unfold make? at h
  split at h
  · cases h
  · exact (Except.ok.inj h).symm

def pixel (m : Machine) (x y : Int) : Except MachineError Bool := do
  let column ← place? .read Display.width x
  let row ← place? .read Display.height y
  return m.display.isLit column row

def picture (m : Machine) (view : Viewport) : Except MachineError Surface :=
  match view.opened with
  | .error e => .error (.window e)
  | .ok window =>
    if view.fits then .ok (view.render m.display window) else .error (.outOfRange .read)

def adjust (m : Machine) : Adjustment → Machine
  | .register x b => m.setRegister x b
  | .index w => { m with index := w.toNat }
  | .pc w => { m with pc := w }
  | .pointer p => { m with stack := { m.stack with pointer := p } }
  | .delay b => { m with timers := { m.timers with delay := b } }
  | .sound b => { m with timers := { m.timers with sound := b } }
  | .memory a bytes => { m with memory := m.memory.writeBlock a bytes }
  | .slot k w => { m with stack := { m.stack with slots := m.stack.slots.set k w } }
  | .drawn b => { m with drawn := b }

def unchanged (m : Machine) (answer : Except MachineError Answer) : Outcome :=
  ⟨m, [], answer⟩

def changed (m : Machine) (log : List Message) : Outcome :=
  ⟨m, log, .ok .done⟩

/-- What comes of an operation, with every message. A run keeps only the messages
that pass the threshold, since it may have very many. -/
def outcome (threshold : Level) (m : Machine) : Operation → Outcome
  | .load image offset =>
    match m.loadImage image offset with
    | .ok n => changed n [.loaded image.length offset]
    | .error e => m.unchanged (.error e)
  | .cycle => changed m.cycle m.cycleLog
  | .tick => changed m.tick m.tickLog
  | .decrement => changed m.decrementTimers m.decrementTimersLog
  | .reset => changed m.reset []
  | .run seconds =>
    match m.cyclesFor seconds with
    | .ok count =>
      let (n, log) := cyclesLogged threshold count.toNat m []
      ⟨n, log.reverse, .ok (.integer count)⟩
    | .error e => m.unchanged (.error (.arithmetic e))
  | .count seconds =>
    match m.cyclesFor seconds with
    | .ok count => m.unchanged (.ok (.integer count))
    | .error e => m.unchanged (.error (.arithmetic e))
  | .execute word => changed (m.executeWord word) (m.executeWordLog word)
  | .call mnemonic operands =>
    match Call.ofOperands mnemonic operands with
    | .ok c => ⟨m.call c, m.callLog c, c.result.map fun _ => .done⟩
    | .error e => m.unchanged (.error e)
  | .skip => changed (m.execute none) (m.executeLog none)
  | .press offer =>
    match offer.key? with
    | some k => ⟨m.press k, [], m.pressResult.map fun _ => .done⟩
    | none => m.unchanged (.error (.invalidKey offer))
  | .release offer =>
    match offer.key? with
    | some k => changed (m.release k) []
    | none => m.unchanged (.error (.invalidKey offer))
  | .pixel x y => m.unchanged ((m.pixel x y).map .flag)
  | .event e => ⟨m.handle e, [], (m.handleResult e).map .flag⟩
  | .render view =>
    match m.picture view with
    | .ok window => ⟨{ m with drawn := false }, [], .ok (.window window)⟩
    | .error e => m.unchanged (.error e)
  | .fetch => m.unchanged (.ok (.integer m.fetch.toNat))
  | .dump => m.unchanged (.ok (.text m.dump))
  | .adjust a => changed (m.adjust a) []

def apply (threshold : Level) (m : Machine) (op : Operation) : Outcome :=
  let o := m.outcome threshold op
  { o with log := o.log.filter fun e => e.level.passes threshold }

/-- What comes of several operations up to the first that is rejected. The answer
is that of the last one applied. -/
def applyAll (threshold : Level) (m : Machine) : List Operation → Outcome
  | [] => changed m []
  | op :: rest =>
    let first := m.apply threshold op
    match first.answer, rest with
    | .error _, _ => first
    | .ok _, [] => first
    | .ok _, _ =>
      let others := applyAll threshold first.machine rest
      { others with log := first.log ++ others.log }

/-- Among the operations that store bytes, a constant is read back as it was given. -/
theorem register_apply_loadByte (m : Machine) (threshold : Level) {x value : Int}
    {r : Register} (hx : register? .write x = .ok r)
    (hop : (Operation.call "LD_BYTE" [x, value]).storesBytes = true) :
    ((m.apply threshold (.call "LD_BYTE" [x, value])).machine.register r).toNat = value := by
  have hbyte : 0 ≤ value ∧ value ≤ 255 := by
    simpa [Operation.storesBytes, hx, Except.isOk, Except.toBool] using hop
  have hcall : Call.ofOperands "LD_BYTE" [x, value] =
      .ok (.instruction (.loadByte r (BitVec.ofInt 8 value))) := by
    change Call.single .write (.loadByte · (BitVec.ofInt 8 value)) x = _
    rw [Call.single, hx]
    rfl
  have hstored : (m.apply threshold (.call "LD_BYTE" [x, value])).machine.register r =
      (m.setRegister r (BitVec.ofInt 8 value)).register r := by
    simp only [apply, outcome, hcall]
    rfl
  rw [hstored, register_setRegister, if_pos rfl, BitVec.toNat_ofInt]
  omega

end Machine
end ChipEight

import ChipEight.Machine.Execute

/-!
# Cycles

One cycle fetches a word, ticks the timers and, unless the machine waits for a
key, executes the word. A run is as many cycles as fit in a time.
-/

namespace ChipEight
namespace Machine

def beepCount (m : Machine) : Nat :=
  if m.timers.endsSound ∧ m.settings.sound = .speaker then 1 else 0

def decrementTimers (m : Machine) : Machine :=
  { m with timers := m.timers.decrement, beeps := m.beeps + m.beepCount }

def decrementTimersLog (m : Machine) : List Message :=
  if m.timers.endsSound ∧ m.settings.sound = .muted then [.beep] else []

def tick (m : Machine) : Machine :=
  if m.timers.isDue m.settings.timerDivider then
    { m with
      timers := m.timers.tick m.settings.timerDivider, beeps := m.beeps + m.beepCount }
  else { m with timers := m.timers.tick m.settings.timerDivider }

/-- A tick moves the timers and counts what is heard, whether it is due or not. -/
theorem tick_eq (m : Machine) : m.tick = { m with
    timers := m.timers.tick m.settings.timerDivider
    beeps := m.beeps + if m.timers.isDue m.settings.timerDivider then m.beepCount else 0 } := by
  unfold tick
  split <;> rfl

def tickLog (m : Machine) : List Message :=
  if m.timers.isDue m.settings.timerDivider then m.decrementTimersLog else []

/-- The machine with its next word fetched and its timers ticked. -/
def prepare (m : Machine) : Machine :=
  (m.withOperand m.fetch.toNat).tick

def cycle (m : Machine) : Machine :=
  let p := m.prepare
  if p.isBlocked then p else p.execute (Instruction.decode m.fetch)

def cycleLog (m : Machine) : List Message :=
  let p := m.prepare
  (m.withOperand m.fetch.toNat).tickLog ++
    if p.isBlocked then []
    else .traced p.pc m.fetch :: p.executeLog (Instruction.decode m.fetch)

def cycles : Nat → Machine → Machine
  | 0, m => m
  | n + 1, m => cycles n m.cycle

/-- Several cycles with what they report, as far as it passes a threshold; the
messages so far come last first. -/
def cyclesLogged (threshold : Level) :
    Nat → Machine → List Message → Machine × List Message
  | 0, m, log => (m, log)
  | n + 1, m, log =>
    let new := m.cycleLog.filter fun e => e.level.passes threshold
    cyclesLogged threshold n m.cycle (new.reverse ++ log)

theorem cyclesLogged_fst (threshold : Level) (n : Nat) (m : Machine) (log : List Message) :
    (cyclesLogged threshold n m log).1 = cycles n m := by
  induction n generalizing m log with
  | zero => rfl
  | succ n ih => exact ih _ _

/-- The number of cycles in a time, rounded to the nearest whole cycle. None fit
in a time that is not positive. -/
def cyclesFor (m : Machine) (seconds : Number) : Except ArithmeticError Int :=
  if seconds.le (.int 0) then .ok 0
  else do
    let product ← seconds.mul m.settings.cycleRate
    let shifted ← product.addHalf
    let value ← shifted.integral
    return value.floor

theorem cyclesFor_congr {m n : Machine} (h : m.settings.cycleRate = n.settings.cycleRate)
    (seconds : Number) : m.cyclesFor seconds = n.cyclesFor seconds := by
  rw [cyclesFor, cyclesFor, h]

end Machine
end ChipEight

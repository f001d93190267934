import ChipEight.Instruction.Basic
import ChipEight.Numeric.Number

/-!
# Timers

The delay and the sound timer count down to zero, once every so many cycles. A
counter of cycles starts again whenever it reaches the divider.
-/

namespace ChipEight

structure Timers where
  delay : Byte
  sound : Byte
  counter : Nat
  deriving DecidableEq

namespace Timers

def zero : Timers := ⟨0, 0, 0⟩

/-- A timer one step further down; zero stays. -/
def countDown (b : Byte) : Byte := if b = 0 then 0 else b - 1

def decrement (t : Timers) : Timers :=
  { t with delay := countDown t.delay, sound := countDown t.sound }

/-- Whether the next decrement ends a sound. -/
def endsSound (t : Timers) : Bool := t.sound = 1

def isDue (divider : Number) (t : Timers) : Bool :=
  divider.le (.int ((t.counter + 1 : Nat) : Int))

def tick (divider : Number) (t : Timers) : Timers :=
  if t.isDue divider then { t.decrement with counter := 0 }
  else { t with counter := t.counter + 1 }

theorem countDown_toNat (b : Byte) : (countDown b).toNat = b.toNat - 1 := by
  by_cases h : b = 0
  · subst h; rfl
  · have hpos : b.toNat ≠ 0 := fun hz => h (BitVec.eq_of_toNat_eq hz)
    have hlt := b.isLt
    have hone : (1 : Byte).toNat = 1 := rfl
    rw [countDown, if_neg h, BitVec.toNat_sub, hone]
    omega

end Timers
end ChipEight

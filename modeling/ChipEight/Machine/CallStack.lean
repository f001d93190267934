import ChipEight.Instruction.Basic

/-!
# Call stack

Sixteen slots in a circle. The pointer names the slot the next call fills; it
wraps around in both directions, so a seventeenth nested call overwrites the
oldest address and a return with nothing on the stack still reads a slot. The
depth counts the calls that are really there.
-/

namespace ChipEight

structure CallStack where
  slots : Vector Word 16
  pointer : Fin 16
  depth : Nat
  deriving DecidableEq

namespace CallStack

def capacity : Nat := 16

def empty : CallStack := ⟨Vector.replicate 16 0, 0, 0⟩

/-- The slot that a return reads. -/
def top (s : CallStack) : Word := s.slots[s.pointer - 1]

def push (s : CallStack) (a : Word) : CallStack where
  slots := s.slots.set s.pointer a
  pointer := s.pointer + 1
  depth := if capacity ≤ s.depth then s.depth else s.depth + 1

/-- The stack after a return. Slots are never cleared. -/
def pop (s : CallStack) : CallStack where
  slots := s.slots
  pointer := s.pointer - 1
  depth := s.depth - 1

def isFull (s : CallStack) : Bool := capacity ≤ s.depth

def isEmpty (s : CallStack) : Bool := s.depth = 0

end CallStack
end ChipEight

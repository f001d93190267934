import ChipEight.Machine.Basic

/-!
# Differences of machines

Where the stack, the memory and the display of two machines differ.
-/

namespace ChipEight

/-- The places at which two lists differ, with the new elements there. -/
def changes {α : Type} [DecidableEq α] (old new : List α) : List (Nat × α) :=
  ((old.zip new).zipIdx.filter fun entry => entry.1.1 ≠ entry.1.2).map
    fun entry => (entry.2, entry.1.2)

def pushBlock {α : Type} (entry : Nat × α) : List (Nat × List α) → List (Nat × List α)
  | [] => [(entry.1, [entry.2])]
  | (start, xs) :: rest =>
    if start = entry.1 + 1 then (entry.1, entry.2 :: xs) :: rest
    else (entry.1, [entry.2]) :: (start, xs) :: rest

def blocks {α : Type} (entries : List (Nat × α)) : List (Nat × List α) :=
  entries.foldr pushBlock []

namespace Machine

/-- A machine before anything is in it. -/
def void (settings : Settings) : Machine :=
  { initial settings with memory := Memory.zero }

def stackChanges (old new : Machine) : List (Nat × Word) :=
  changes old.stack.slots.toList new.stack.slots.toList

def memoryChanges (old new : Machine) : List (Nat × List Byte) :=
  blocks (changes old.memory.toList new.memory.toList)

def displayChanges (old new : Machine) : List (Nat × BitVec 64) :=
  changes old.display.toList new.display.toList

end Machine
end ChipEight

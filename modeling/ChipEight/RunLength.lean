/-!
# Run lengths

A list as its maximal runs of equal elements, and back again.
-/

namespace ChipEight
namespace RunLength

variable {α : Type} [DecidableEq α]

def push (a : α) : List (α × Nat) → List (α × Nat)
  | [] => [(a, 1)]
  | (b, n) :: rest => if a = b then (b, n + 1) :: rest else (a, 1) :: (b, n) :: rest

/-- The maximal runs of a list with their lengths. -/
def encode (xs : List α) : List (α × Nat) :=
  xs.foldr push []

def decode (runs : List (α × Nat)) : List α :=
  runs.flatMap fun run => List.replicate run.2 run.1

@[simp] theorem encode_nil : encode ([] : List α) = [] := rfl

@[simp] theorem encode_cons (x : α) (xs : List α) : encode (x :: xs) = push x (encode xs) :=
  rfl

omit [DecidableEq α] in
@[simp] theorem decode_nil : decode ([] : List (α × Nat)) = [] := rfl

omit [DecidableEq α] in
@[simp] theorem decode_cons (a : α) (n : Nat) (runs : List (α × Nat)) :
    decode ((a, n) :: runs) = List.replicate n a ++ decode runs := rfl

theorem decode_push (a : α) (runs : List (α × Nat)) :
    decode (push a runs) = a :: decode runs := by
  match runs with
  | [] => rfl
  | (b, n) :: rest =>
    by_cases h : a = b
    · subst h
      simp [push, List.replicate_succ]
    · simp [push, h]

theorem decode_encode (xs : List α) : decode (encode xs) = xs := by
  induction xs with
  | nil => rfl
  | cons x xs ih => rw [encode_cons, decode_push, ih]

/-- Lengths of the runs of a row of two values, the first run being off. It is
empty where the row starts with a value that is on. -/
def alternating (row : List Bool) : List Nat :=
  let runs := encode row
  let lengths := runs.map Prod.snd
  match runs with
  | (true, _) :: _ => 0 :: lengths
  | _ => lengths

end RunLength
end ChipEight

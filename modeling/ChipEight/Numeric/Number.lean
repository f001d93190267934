import ChipEight.Numeric.Decimal

/-!
# Numbers

Rates, durations and frequencies are integers of any size or binary64 numbers.
Integers stay exact among themselves; an integer that meets a binary64 number is
rounded to the nearest one first, which fails when it is out of range.
-/

namespace ChipEight

inductive ArithmeticError
  | integerTooLarge
  | integerOfNan
  | integerOfInfinity
  | integerDivisionByZero
  | floatDivisionByZero
  deriving DecidableEq

namespace ArithmeticError

def message : ArithmeticError → String
  | integerTooLarge => "int too large to convert to float"
  | integerOfNan => "cannot convert float NaN to integer"
  | integerOfInfinity => "cannot convert float infinity to integer"
  | integerDivisionByZero => "integer division or modulo by zero"
  | floatDivisionByZero => "float floor division by zero"

end ArithmeticError

namespace Binary64

/-- The binary64 number nearest to an integer, which has to be in range. -/
def ofInt (n : Int) : Except ArithmeticError Binary64 :=
  match nearest (n : Rat) with
  | infinite _ => .error .integerTooLarge
  | x => .ok x

/-- The exact value of a number that is to become an integer. -/
def integral (x : Binary64) : Except ArithmeticError Rat :=
  match x with
  | nan => .error .integerOfNan
  | infinite _ => .error .integerOfInfinity
  | negativeZero => .ok 0
  | finite value => .ok value

end Binary64

inductive Number
  | int (n : Int)
  | float (x : Binary64)
  deriving DecidableEq

namespace Number

def toBinary64 : Number → Except ArithmeticError Binary64
  | int n => Binary64.ofInt n
  | float x => .ok x

/-- The product: exact between integers, rounded otherwise. -/
protected def mul : Number → Number → Except ArithmeticError Number
  | int m, int n => .ok (int (m * n))
  | x, y => do
    let a ← x.toBinary64
    let b ← y.toBinary64
    return float (a.mul b)

def addHalf (x : Number) : Except ArithmeticError Binary64 := do
  let a ← x.toBinary64
  return a.add Binary64.half

def truncate : Number → Except ArithmeticError Int
  | int n => .ok n
  | float x => do
    let value ← x.integral
    return if value < 0 then -(-value).floor else value.floor

/-- Where a number lies among the rationals and the two infinities. -/
inductive Position
  | below
  | inside (value : Rat)
  | above

/-- No position belongs to a number that is not a number. -/
def position? : Number → Option Position
  | int n => some (.inside (n : Rat))
  | float .nan => none
  | float (.infinite negative) => some (if negative then .below else .above)
  | float .negativeZero => some (.inside 0)
  | float (.finite x) => some (.inside x)

/-- Exact comparison, with nothing rounded first. -/
def lt (x y : Number) : Bool :=
  match x.position?, y.position? with
  | some (.inside a), some (.inside b) => a < b
  | some .below, some (.inside _) => true
  | some .below, some .above => true
  | some (.inside _), some .above => true
  | _, _ => false

def le (x y : Number) : Bool :=
  match x.position?, y.position? with
  | some (.inside a), some (.inside b) => a ≤ b
  | some .below, some _ => true
  | some _, some .above => true
  | _, _ => false

/-- The floor of a quotient of two binary64 numbers. It is taken of the exact
quotient; an infinite divisor leaves zero or minus one, and nothing is left of a
quotient that has no position. -/
def floorQuotient (x y : Binary64) : Except ArithmeticError (Option Int) :=
  if y.value? = some 0 then .error .floatDivisionByZero
  else
    match x.value?, y with
    | some a, .infinite negative =>
      .ok (some (if a = 0 ∨ (decide (a < 0) = negative) then 0 else -1))
    | some a, .finite b => .ok (some (a / b).floor)
    | _, _ => .ok none

/-- The floor of an integer divided by a number. -/
def floorDivide (n : Int) : Number → Except ArithmeticError (Option Int)
  | int d => if d = 0 then .error .integerDivisionByZero else .ok (some (Int.fdiv n d))
  | float d => do
    let x ← Binary64.ofInt n
    floorQuotient x d

def text : Number → String
  | int n => toString n
  | float x => x.text

@[simp] theorem mul_int (m n : Int) : (int m).mul (int n) = .ok (int (m * n)) := rfl

@[simp] theorem truncate_int (n : Int) : (int n).truncate = .ok n := rfl

theorem lt_int (m n : Int) : (int m).lt (int n) = decide ((m : Rat) < (n : Rat)) := rfl

theorem le_int (m n : Int) : (int m).le (int n) = decide ((m : Rat) ≤ (n : Rat)) := rfl

end Number
end ChipEight

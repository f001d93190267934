/-!
# Binary64 numbers

Double precision numbers by their exact values. A finite number is the rational
it stands for, and every operation is the exact operation on rationals followed
by one rounding to the nearest representable value, a tie going to the even
significand. Zero keeps its sign, because the sign of zero is written.
-/

namespace ChipEight

inductive Binary64
  | nan
  | infinite (negative : Bool)
  | negativeZero
  | finite (value : Rat)
  deriving DecidableEq

namespace Binary64

def powerOfTwo (e : Int) : Rat :=
  if 0 ≤ e then mkRat (Nat.pow 2 e.toNat) 1 else mkRat 1 (Nat.pow 2 (-e).toNat)

def powerOfTen (e : Int) : Rat :=
  if 0 ≤ e then mkRat (Nat.pow 10 e.toNat) 1 else mkRat 1 (Nat.pow 10 (-e).toNat)

def magnitude (x : Rat) : Rat :=
  if x < 0 then -x else x

/-- The exponent of the largest power of two that does not exceed a nonzero
rational in size. The two bit lengths leave two candidates. -/
def binade (x : Rat) : Int :=
  let e : Int := (x.num.natAbs.log2 : Int) - (x.den.log2 : Int)
  if magnitude x < powerOfTwo e then e - 1 else e

/-- Distance of neighbouring representable numbers around a nonzero rational:
53 significant bits, and no bit below the smallest positive number. -/
def spacing (x : Rat) : Rat :=
  powerOfTwo (max (binade x - 52) (-1074))

/-- The nearest integer, a tie going to the even one. -/
def roundEven (x : Rat) : Int :=
  let low := x.floor
  let rest := x - (low : Rat)
  if rest < mkRat 1 2 then low
  else if mkRat 1 2 < rest then low + 1
  else if low % 2 = 0 then low
  else low + 1

/-- The least size that is out of range. -/
def overflowBound : Rat := powerOfTwo 1024

def nearest (x : Rat) : Binary64 :=
  if x = 0 then finite 0
  else
    let unit := spacing x
    let rounded := (roundEven (x / unit) : Rat) * unit
    if overflowBound ≤ magnitude rounded then infinite (x < 0)
    else if rounded = 0 ∧ x < 0 then negativeZero
    else finite rounded

def zero (negative : Bool) : Binary64 :=
  if negative then negativeZero else finite 0

/-- The sign, also of zero and infinity. -/
def isNegative : Binary64 → Bool
  | nan => false
  | infinite negative => negative
  | negativeZero => true
  | finite x => x < 0

def value? : Binary64 → Option Rat
  | nan => none
  | infinite _ => none
  | negativeZero => some 0
  | finite x => some x

@[simp] theorem value?_finite (x : Rat) : (finite x).value? = some x := rfl

@[simp] theorem value?_negativeZero : negativeZero.value? = some 0 := rfl

protected def neg : Binary64 → Binary64
  | nan => nan
  | infinite negative => infinite (!negative)
  | negativeZero => finite 0
  | finite x => if x = 0 then negativeZero else finite (-x)

/-- The product, rounded once. Its sign is that of the factors, also at zero. -/
protected def mul (x y : Binary64) : Binary64 :=
  let negative := x.isNegative != y.isNegative
  match x, y with
  | nan, _ => nan
  | _, nan => nan
  | infinite _, infinite _ => infinite negative
  | infinite _, y => if y.value? = some 0 then nan else infinite negative
  | x, infinite _ => if x.value? = some 0 then nan else infinite negative
  | x, y =>
    let product := x.value?.getD 0 * y.value?.getD 0
    if product = 0 then zero negative else nearest product

/-- The sum, rounded once. Only two negative zeros have a negative zero as sum. -/
protected def add (x y : Binary64) : Binary64 :=
  match x, y with
  | nan, _ => nan
  | _, nan => nan
  | infinite s, infinite t => if s = t then infinite s else nan
  | infinite s, _ => infinite s
  | _, infinite t => infinite t
  | negativeZero, negativeZero => negativeZero
  | x, y => nearest (x.value?.getD 0 + y.value?.getD 0)

def half : Binary64 := finite (mkRat 1 2)

end Binary64
end ChipEight

import ChipEight.Numeric.Binary64

/-!
# Decimal text of binary64 numbers

Reading takes any decimal and rounds it once. Writing uses the fewest digits
that read back as the same number and, of those, the nearest decimal. It is
positional while the decimal point lies at most sixteen places to the right of
the first digit and at most three to its left, and has an exponent of at least
two digits otherwise.
-/

namespace ChipEight

structure Decimal where
  digits : Nat
  exponent : Int
  deriving DecidableEq

namespace Decimal

def value (d : Decimal) : Rat :=
  (d.digits : Rat) * Binary64.powerOfTen d.exponent

/-- The binary64 number nearest to a decimal. From 10 ^ 309 on there is only
infinity, and below 10 ^ -324 only zero; there the value is not worked out. -/
def toBinary64 (d : Decimal) : Binary64 :=
  if d.digits = 0 then .finite 0
  else if 308 < d.exponent then .infinite false
  else if d.exponent + (d.digits.log2 + 1 : Nat) ≤ -324 then .finite 0
  else Binary64.nearest d.value

/-- The exponent of the largest power of ten that does not exceed a positive
rational. The binary exponent times log 2 is off by at most one. -/
def decade (x : Rat) : Int :=
  let guess := Int.fdiv (Binary64.binade x * 30103) 100000
  if x < Binary64.powerOfTen guess then guess - 1
  else if Binary64.powerOfTen (guess + 1) ≤ x then guess + 1
  else guess

/-- Whether a positive rational rounds to the positive representable number `x`.
The gap below a power of two is half the gap above it; the ends of the interval
belong to the number with the even significand. -/
def readsBack (x candidate : Rat) : Bool :=
  let unit := Binary64.spacing x
  let below :=
    if x = Binary64.powerOfTwo (Binary64.binade x) ∧ -1022 < Binary64.binade x then
      unit / 2
    else unit
  let low := x - below / 2
  let high := x + unit / 2
  if (x / unit).floor % 2 = 0 then low ≤ candidate ∧ candidate ≤ high
  else low < candidate ∧ candidate < high

def neighbours (x : Rat) (count : Nat) : List Decimal :=
  let exponent := decade x - (count : Int) + 1
  let step := Binary64.powerOfTen exponent
  let low := (x / step).floor.toNat
  let down : Decimal := ⟨low, exponent⟩
  let up : Decimal := ⟨low + 1, exponent⟩
  let gap := x - down.value
  if gap < step - gap ∨ (gap = step - gap ∧ low % 2 = 0) then [down, up] else [up, down]

/-- The nearest of the shortest decimals that round to the positive number `x`.
Seventeen digits always suffice. -/
def shortest (x : Rat) : Decimal :=
  ((List.range 17).findSome? fun k =>
    (neighbours x (k + 1)).find? fun d => readsBack x d.value).getD ⟨0, 0⟩

/-- Digits without trailing zeros, each zero moved into the exponent. -/
def trimmed (digits : List Char) (exponent : Int) : List Char × Int :=
  let kept := (digits.reverse.dropWhile (· == '0')).reverse
  (kept, exponent + ((digits.length - kept.length : Nat) : Int))

def zeros (n : Nat) : String :=
  String.ofList (List.replicate n '0')

/-- A positive decimal with its point, or with an exponent of two digits or more
where the point is too far off. -/
def text (d : Decimal) : String :=
  let (digits, exponent) := trimmed (Nat.toDigits 10 d.digits) d.exponent
  let count := digits.length
  let point : Int := count + exponent
  if -3 ≤ point ∧ point ≤ 16 then
    if point ≤ 0 then
      "0." ++ zeros (-point).toNat ++ String.ofList digits
    else if (count : Int) ≤ point then
      String.ofList digits ++ zeros (point - count).toNat ++ ".0"
    else
      String.ofList (digits.take point.toNat) ++ "." ++
        String.ofList (digits.drop point.toNat)
  else
    let rest := digits.drop 1
    let shown := (point - 1).natAbs
    String.ofList (digits.take 1) ++
      (if rest.isEmpty then "" else "." ++ String.ofList rest) ++
      (if point - 1 < 0 then "e-" else "e+") ++
      (if shown < 10 then "0" else "") ++ toString shown

def signed? (cs : List Char) : Option Int :=
  let read (digits : List Char) : Option Nat :=
    if digits.isEmpty ∨ digits.any (fun c => !c.isDigit) then none
    else some (digits.foldl (fun n c => 10 * n + (c.toNat - 48)) 0)
  match cs with
  | '-' :: rest => (read rest).map fun n => -(n : Int)
  | '+' :: rest => (read rest).map fun n => (n : Int)
  | rest => (read rest).map fun n => (n : Int)

def ofList? (cs : List Char) : Option Decimal := do
  let isMark (c : Char) : Bool := c == 'e' || c == 'E'
  let mantissa := cs.takeWhile fun c => !isMark c
  let exponent ←
    match cs.dropWhile fun c => !isMark c with
    | [] => some 0
    | _ :: tail => signed? tail
  let whole := mantissa.takeWhile (· != '.')
  let fraction := (mantissa.dropWhile (· != '.')).drop 1
  let digits ← signed? ('+' :: (whole ++ fraction))
  some ⟨digits.toNat, exponent - fraction.length⟩

end Decimal

namespace Binary64

/-- The text of a number: its sign, then the shortest decimal of its size. -/
def text : Binary64 → String
  | nan => "nan"
  | infinite negative => if negative then "-inf" else "inf"
  | negativeZero => "-0.0"
  | finite x =>
    if x = 0 then "0.0"
    else (if x < 0 then "-" else "") ++ (Decimal.shortest (magnitude x)).text

/-- The number nearest to a written decimal; the names of the special values are
read as well, in letters of either case. -/
def ofText? (s : String) : Option Binary64 :=
  let (negative, body) :=
    match s.toList with
    | '-' :: rest => (true, rest)
    | '+' :: rest => (false, rest)
    | rest => (false, rest)
  let name := String.ofList (body.map Char.toLower)
  if name = "nan" then some nan
  else if name = "inf" ∨ name = "infinity" then some (infinite negative)
  else (Decimal.ofList? body).map fun d =>
    if negative then d.toBinary64.neg else d.toBinary64

end Binary64
end ChipEight

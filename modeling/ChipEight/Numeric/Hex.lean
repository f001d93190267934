/-!
# Hexadecimal text

Numbers in hexadecimal, as the register dump, the assembly listing and the log
write them: upper-case digits, no leading zero of their own, filled up on the
left to a least width. A minus sign counts towards the width.
-/

namespace ChipEight
namespace Hex

def upperDigit (d : Nat) : Char :=
  if d < 10 then Char.ofNat (48 + d) else Char.ofNat (55 + d)

/-- The digits of a number, most significant first; zero has one digit. -/
def digits (n : Nat) : List Char :=
  if n < 16 then [upperDigit n] else digits (n / 16) ++ [upperDigit (n % 16)]
termination_by n

def lowerDigit (d : Nat) : Char :=
  if d < 10 then Char.ofNat (48 + d) else Char.ofNat (87 + d)

/-- The last digits of a number in lower case, as many as asked for. -/
def lowerFixed : Nat → Nat → List Char
  | 0, _ => []
  | count + 1, n => lowerFixed count (n / 16) ++ [lowerDigit (n % 16)]

def digitValue? (c : Char) : Option Nat :=
  let n := c.toNat
  if 48 ≤ n ∧ n ≤ 57 then some (n - 48)
  else if 65 ≤ n ∧ n ≤ 70 then some (n - 55)
  else if 97 ≤ n ∧ n ≤ 102 then some (n - 87)
  else none

/-- The numbers below 256 written by pairs of digits. -/
def pairs? : List Char → Option (List Nat)
  | [] => some []
  | [_] => none
  | a :: b :: rest => do
    let high ← digitValue? a
    let low ← digitValue? b
    let others ← pairs? rest
    return (16 * high + low) :: others

/-- Characters put in front of a text until it has the given width. -/
def fill (c : Char) (width : Nat) (text : List Char) : List Char :=
  List.replicate (width - text.length) c ++ text

def zeroFilled (width : Nat) : Int → List Char
  | .ofNat n => fill '0' width (digits n)
  | .negSucc n => '-' :: fill '0' (width - 1) (digits (n + 1))

/-- A signed number with zeros between its sign and its digits. -/
def padded (width : Nat) (n : Int) : String :=
  String.ofList (zeroFilled width n)

def signedDigits : Int → List Char
  | .ofNat n => digits n
  | .negSucc n => '-' :: digits (n + 1)

def spaced (width : Nat) (n : Int) : String :=
  String.ofList (fill ' ' width (signedDigits n))

def plain (n : Nat) : String :=
  String.ofList (digits n)

theorem digits_of_lt {n : Nat} (h : n < 16) : digits n = [upperDigit n] := by
  rw [digits]
  simp [h]

theorem digits_of_ge {n : Nat} (h : 16 ≤ n) :
    digits n = digits (n / 16) ++ [upperDigit (n % 16)] := by
  rw [digits]
  simp [Nat.not_lt.mpr h]

@[simp] theorem length_lowerFixed (count n : Nat) : (lowerFixed count n).length = count := by
  induction count generalizing n with
  | zero => rfl
  | succ count ih => simp [lowerFixed, ih]

theorem length_fill (c : Char) (width : Nat) (text : List Char) :
    (fill c width text).length = max width text.length := by
  simp only [fill, List.length_append, List.length_replicate]
  omega

end Hex
end ChipEight

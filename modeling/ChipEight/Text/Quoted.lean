import ChipEight.Numeric.Hex
import ChipEight.Text.Printable

/-!
# Quoted text

Text between quotation marks, as messages show it: single quotes unless the text
has a single quote and no double one. The quotation mark and the backslash are
escaped, a line break, carriage return and tabulator have a letter each, and any
other character that is not printable is written by its code point.
-/

namespace ChipEight
namespace Text

/-- The mark that needs fewer escapes, the single one if in doubt. -/
def quotationMark (cs : List Char) : Char :=
  if cs.contains '\'' && !cs.contains '"' then '"' else '\''

/-- A character by the shortest of the three code point escapes. -/
def codePointEscape (n : Nat) : List Char :=
  if n < 0x100 then '\\' :: 'x' :: Hex.lowerFixed 2 n
  else if n < 0x10000 then '\\' :: 'u' :: Hex.lowerFixed 4 n
  else '\\' :: 'U' :: Hex.lowerFixed 8 n

def escapeChar (mark c : Char) : List Char :=
  if c = mark ∨ c = '\\' then ['\\', c]
  else if c = '\n' then ['\\', 'n']
  else if c = '\r' then ['\\', 'r']
  else if c = '\t' then ['\\', 't']
  else if isPrintable c then [c]
  else codePointEscape c.toNat

def quoted (s : String) : String :=
  let cs := s.toList
  let mark := quotationMark cs
  String.ofList (mark :: cs.flatMap (escapeChar mark) ++ [mark])

end Text
end ChipEight

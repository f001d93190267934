import ChipEight.Emulator.Session
import ChipEight.Text.Numeral

/-!
# Written frames

A frame on one line: the milliseconds that have passed, then the events as `quit`
or as `down` or `up` with a key code behind a colon. A window is shown as lines of
marks.
-/

namespace ChipEight
namespace Frame

/-- The event that a word stands for; any other word is an event of no concern. -/
def eventOfWord (word : String) : Event :=
  match word.splitOn ":" with
  | ["quit"] => .quit
  | ["down", code] =>
    match Text.integer? code with
    | some n => .keyDown n
    | none => .other
  | ["up", code] =>
    match Text.integer? code with
    | some n => .keyUp n
    | none => .other
  | _ => .other

/-- The frame written on a line; without milliseconds there is none. -/
def ofLine? (line : String) : Option Frame :=
  match (line.splitOn " ").filter (· ≠ "") with
  | [] => none
  | ms :: words => (Text.integer? ms).map fun n => ⟨n, words.map eventOfWord⟩

end Frame

namespace Surface

def lines (s : Surface) : List String :=
  s.rows.toList.map fun row =>
    String.ofList (row.toList.map fun lit => if lit then '#' else '.')

end Surface
end ChipEight

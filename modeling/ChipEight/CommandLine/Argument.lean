import ChipEight.CommandLine.Exit
import ChipEight.Text.Numeral

/-!
# Arguments

What each word of a command line is, judged by its form alone: an operand, an
option, or the separator after which everything is an operand. A long option may
be cut short as long as one long option begins so, and may carry its value behind
an equals sign; a short option may carry its value behind itself.
-/

namespace ChipEight

inductive Attachment
  | none
  | equals (value : String)
  | joined (value : String)
  deriving DecidableEq

inductive Argument
  | operand (text : String)
  | separator
  | option (flag : Flag) (isShort : Bool) (value : Attachment)
  | unknown (text : String)
  deriving DecidableEq

namespace Argument

/-- A text before and after its first equals sign. -/
def splitEquals (cs : List Char) : List Char × Option (List Char) :=
  match cs.dropWhile (· != '=') with
  | [] => (cs, none)
  | _ :: value => (cs.takeWhile (· != '='), some value)

def attachment : Option (List Char) → Attachment
  | none => .none
  | some value => .equals (String.ofList value)

def completions (start : List Char) : List Flag :=
  (Flag.spellings.filter fun entry => start.isPrefixOf entry.1.toList).map Prod.snd

/-- An option that is cut short or carries a value, where there is one. -/
def abbreviated? (cs : List Char) : Except UsageError (Option Argument) :=
  match cs with
  | '-' :: '-' :: _ =>
    let (start, value) := splitEquals cs
    match completions start with
    | [] => .ok none
    | [flag] => .ok (some (option flag false (attachment value)))
    | _ => .error (.ambiguous (String.ofList cs))
  | '-' :: c :: rest =>
    .ok ((Flag.ofSpelling? (String.ofList ['-', c])).map fun flag =>
      option flag true (.joined (String.ofList rest)))
  | _ => .ok none

/-- Whether an option is short, judged by the text before any value. -/
def isShortSpelling (cs : List Char) : Bool := cs.length = 2

/-- A word that begins with a minus sign and has another character. -/
def classifyDashed (s : String) : Except UsageError Argument :=
  let cs := s.toList
  let (start, value) := splitEquals cs
  match Flag.ofSpelling? s with
  | some flag => .ok (option flag (isShortSpelling cs) .none)
  | none =>
    match value, Flag.ofSpelling? (String.ofList start) with
    | some v, some flag =>
      .ok (option flag (isShortSpelling start) (.equals (String.ofList v)))
    | _, _ => do
      match ← abbreviated? cs with
      | some a => return a
      | none =>
        if Text.looksNegative s ∨ cs.contains ' ' then return operand s
        else return unknown s

def classify (s : String) : Except UsageError Argument :=
  match s.toList with
  | '-' :: _ :: _ => classifyDashed s
  | _ => .ok (operand s)

def classifyAll : List String → Except UsageError (List Argument)
  | [] => .ok []
  | s :: rest =>
    if s = "--" then .ok (separator :: rest.map operand)
    else do
      let a ← classify s
      let others ← classifyAll rest
      return a :: others

end Argument
end ChipEight

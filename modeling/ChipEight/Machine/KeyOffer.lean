import ChipEight.Instruction.Assembly
import ChipEight.Machine.Basic
import ChipEight.Text.Quoted

/-!
# Key offers

A caller may offer anything for a key. Only the integers from 0 to 15 are keys,
and the truth values count as 1 and 0.
-/

namespace ChipEight

/-- What a caller offers as a key. -/
inductive KeyOffer
  | nothing
  | flag (b : Bool)
  | number (n : Number)
  | text (s : String)
  deriving DecidableEq

namespace KeyOffer

def integer? : KeyOffer → Option Int
  | flag b => some (if b then 1 else 0)
  | number (.int n) => some n
  | _ => none

def key? (o : KeyOffer) : Option Key := o.integer?.bind Instruction.nibble?

def shown : KeyOffer → String
  | nothing => "None"
  | flag b => if b then "True" else "False"
  | number n => n.text
  | text s => Text.quoted s

end KeyOffer
end ChipEight

import ChipEight.Instruction.Signature
import ChipEight.Machine.KeyOffer
import ChipEight.Numeric.Width
import ChipEight.Window.Error

/-!
# Errors of the machine

The causes for which an operation is rejected, and their messages.
-/

namespace ChipEight

/-- What a row of places is asked for. -/
inductive Access
  | read
  | write
  deriving DecidableEq

inductive MachineError
  /-- The program would run past the end of memory, which has `limit` bytes. -/
  | programTooLarge (size offset limit : Int)
  | byteOutOfRange
  | invalidKey (offer : KeyOffer)
  | unknownMnemonic (name : String)
  | operandCount (signature : Signature) (given : Nat)
  | arithmetic (cause : ArithmeticError)
  | outOfRange (access : Access)
  /-- The number of a place needs more than 64 bits. -/
  | indexTooWide
  /-- The length of an image needs more than 64 bits. -/
  | countTooWide
  | window (cause : WindowError)
  | dividerTooSmall
  deriving DecidableEq

namespace MachineError

def message : MachineError → String
  | programTooLarge size offset limit =>
    "Program of " ++ toString size ++ " bytes at " ++ Hex.padded 3 offset ++
      " runs past end of memory (" ++ Hex.padded 3 (limit - 1) ++ ")"
  | byteOutOfRange => "bytes must be in range(0, 256)"
  | invalidKey offer => "Invalid key: " ++ offer.shown
  | unknownMnemonic name => Text.quoted name
  | operandCount signature given => signature.complaint given
  | arithmetic cause => cause.message
  | outOfRange .read => "list index out of range"
  | outOfRange .write => "list assignment index out of range"
  | indexTooWide => "cannot fit 'int' into an index-sized integer"
  | countTooWide => "cannot fit 'int' into an index-sized integer"
  | window cause => cause.message
  | dividerTooSmall => "timer_divider must be at least 1"

/-- Whether the emulator itself raises the alarm, and not arithmetic or a
container that it uses. -/
def isOwn : MachineError → Bool
  | programTooLarge _ _ _ => true
  | invalidKey _ => true
  | _ => false

end MachineError
end ChipEight

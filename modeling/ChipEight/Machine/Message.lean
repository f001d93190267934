import ChipEight.Instruction.Assembly

/-!
# Messages

What the machine reports while it runs. A message is kept as what happened and
becomes text only where it is shown.
-/

namespace ChipEight

inductive Level
  | debug
  | info
  | warning
  | error
  deriving DecidableEq

namespace Level

def rank : Level → Nat
  | debug => 0
  | info => 1
  | warning => 2
  | error => 3

def name : Level → String
  | debug => "DEBUG"
  | info => "INFO"
  | warning => "WARNING"
  | error => "ERROR"

def passes (l threshold : Level) : Bool := threshold.rank ≤ l.rank

end Level

inductive Message
  | returnWithoutCall (pc : Word)
  | callOverflow (pc : Word) (slot : Nat)
  | loaded (size : Nat) (offset : Int)
  | traced (pc : Word) (word : Word)
  | skipped (operand : Int) (pc : Word)
  | beep
  deriving DecidableEq

namespace Message

def level : Message → Level
  | returnWithoutCall _ => .warning
  | callOverflow _ _ => .warning
  | loaded _ _ => .debug
  | traced _ _ => .debug
  | skipped _ _ => .debug
  | beep => .debug

def text : Message → String
  | returnWithoutCall pc => "Return with empty call stack at " ++ Hex.padded 3 pc.toNat
  | callOverflow pc slot =>
    "Call stack overflow at " ++ Hex.padded 3 pc.toNat ++ ", overwriting slot " ++
      toString slot
  | loaded size offset =>
    "Loaded " ++ toString size ++ " bytes at " ++ Hex.padded 3 offset
  | traced pc word =>
    Hex.padded 3 pc.toNat ++ "  " ++ Hex.padded 4 word.toNat ++ "  " ++
      Word.disassemble word
  | skipped operand pc =>
    "Skipping unrecognized instruction " ++ Hex.padded 4 operand ++ " at " ++
      Hex.padded 3 pc.toNat
  | beep => "Beep!"

/-- The part of the program that reports. -/
def source : Message → String
  | beep => "chip8.buzzer"
  | _ => "chip8.cpu"

end Message
end ChipEight

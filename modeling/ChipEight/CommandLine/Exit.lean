import ChipEight.CommandLine.Options
import ChipEight.Text.Quoted

/-!
# Early exits

A command line that asks for help or is faulty ends the program before it starts.
Help goes to the standard output, a fault to the standard error after the usage.
A setting without a value is not noticed as a fault, and breaks the program off
where the value is looked at.
-/

namespace ChipEight

inductive UsageError
  | ambiguous (written : String)
  | valueExpected (flag : Flag)
  | valueIgnored (flag : Flag) (value : String)
  | notAnInteger (flag : Flag) (value : String)
  | romMissing
  | unrecognized (arguments : List String)
  | tooSmall (setting : Setting)
  deriving DecidableEq

namespace UsageError

/-- The long spellings; an abbreviation of nothing stands for any of them. -/
def longSpellings : List String :=
  (Flag.spellings.map Prod.fst).filter fun s => s.toList.take 2 = ['-', '-']

def message : UsageError → String
  | ambiguous written =>
    "ambiguous option: " ++ written ++ " could match " ++
      String.intercalate ", " longSpellings
  | valueExpected flag => "argument " ++ flag.label ++ ": expected one argument"
  | valueIgnored flag value =>
    "argument " ++ flag.label ++ ": ignored explicit argument " ++ Text.quoted value
  | notAnInteger flag value =>
    "argument " ++ flag.label ++ ": invalid int value: " ++ Text.quoted value
  | romMissing => "the following arguments are required: rom"
  | unrecognized arguments =>
    "unrecognized arguments: " ++ String.intercalate " " arguments
  | tooSmall setting => setting.name ++ " must be at least 1"

end UsageError

inductive Exit
  | help
  | usage (e : UsageError)
  /-- The value of a setting is looked at, and there is none. -/
  | valueless
  deriving DecidableEq

namespace Exit

def usageText : String :=
    "usage: chip8 [-h] [-s SCALE] [-r CYCLE_RATE] [--timer-divider TIMER_DIVIDER]\n" ++
    "             [--debug]\n" ++
    "             rom\n"

def helpText : String :=
  usageText ++
    "\n" ++
    "Starts a simple Chip 8 emulator\n" ++
    "\n" ++
    "positional arguments:\n" ++
    "  rom                   the ROM file to load on startup\n" ++
    "\n" ++
    "options:\n" ++
    "  -h, --help            show this help message and exit\n" ++
    "  -s SCALE, --scale SCALE\n" ++
    "                        the scale factor to apply to the display (default is\n" ++
    "                        10)\n" ++
    "  -r CYCLE_RATE, --cycle-rate CYCLE_RATE\n" ++
    "                        the number of instructions to execute per second\n" ++
    "                        (default is 600)\n" ++
    "  --timer-divider TIMER_DIVIDER\n" ++
    "                        the number of instructions per timer tick; 1 ticks the\n" ++
    "                        timers every instruction, cycle rate / 60 ticks them\n" ++
    "                        at 60 Hz (default is 1)\n" ++
    "  --debug               enable verbose debug logging, including an instruction\n" ++
    "                        trace\n"

def code : Exit → Nat
  | help => 0
  | usage _ => 2
  | valueless => 1

/-- What is reported where the program breaks off. -/
def failure? : Exit → Option String
  | valueless => some "'<' not supported between instances of 'list' and 'int'"
  | _ => none

def stdout : Exit → String
  | help => helpText
  | usage _ => ""
  | valueless => ""

def stderr : Exit → String
  | help => ""
  | usage e => usageText ++ "chip8: error: " ++ e.message ++ "\n"
  | valueless => ""

end Exit
end ChipEight

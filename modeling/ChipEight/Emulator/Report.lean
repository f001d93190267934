import ChipEight.Emulator.Files
import ChipEight.Machine.Error
import ChipEight.Machine.Message

/-!
# Reports

What a session writes to its log: its own events and those of the machine. A line
of the log has the level, the part of the program and the text.
-/

namespace ChipEight

inductive Report
  | machine (e : Message)
  | romUnreadable (name : String) (e : ReadError)
  | romRejected (name : String) (e : MachineError)
  | romLoaded (name : String) (size : Nat)
  | audioUnavailable
  | finalState (dump : String)
  deriving DecidableEq

namespace Report

def level : Report → Level
  | machine e => e.level
  | romUnreadable _ _ => .error
  | romRejected _ _ => .error
  | romLoaded _ _ => .info
  | audioUnavailable => .warning
  | finalState _ => .debug

def source : Report → String
  | machine e => e.source
  | audioUnavailable => "chip8.buzzer"
  | _ => "chip8.main"

def text : Report → String
  | machine e => e.text
  | romUnreadable name e => "Unable to read ROM " ++ name ++ ": " ++ e.message name
  | romRejected name e => "Unable to load ROM " ++ name ++ ": " ++ e.message
  | romLoaded name size => "Loaded " ++ name ++ " (" ++ toString size ++ " bytes)"
  | audioUnavailable =>
    "Audio unavailable, sound disabled: No available audio device"
  | finalState dump => "Final state:\n" ++ dump

def line (r : Report) : String :=
  r.level.name ++ ":" ++ r.source ++ ":" ++ r.text ++ "\n"

end Report
end ChipEight

import ChipEight.Emulator.Session

/-!
# The whole program

From the command line to the exit status: the options are read, and unless that
already ends the program, a session is run.
-/

namespace ChipEight

inductive Transcript
  | exited (e : Exit)
  | played (s : Session)

namespace Transcript

def ofArguments (argv : List String) (s : Surroundings) : Transcript :=
  match Options.ofArguments argv with
  | .error e => exited e
  | .ok o => played (Session.run o s)

def stdout : Transcript → String
  | exited e => e.stdout
  | played _ => ""

def stderr : Transcript → String
  | exited e => e.stderr
  | played s => String.join (s.log.map Report.line)

/-- The frame rates that were asked of the clock. -/
def frameRates : Transcript → List Nat
  | exited _ => []
  | played s => if s.turns = 0 then [] else [Session.frameRate]

end Transcript
end ChipEight

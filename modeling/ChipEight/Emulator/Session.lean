import ChipEight.CommandLine.Reading
import ChipEight.Emulator.Report
import ChipEight.Machine.Operation
import ChipEight.Tone

/-!
# Sessions

A session loads a program file into a new machine and takes turns until it is
asked to stop. In each turn all events of the frame come first, those after a
request to stop included; then the machine runs for the time that has passed, and
the window is painted if the display has been drawn on.
-/

namespace ChipEight

/-- The time that has passed since the last turn, and what happened meanwhile. -/
structure Frame where
  milliseconds : Int
  events : List Event
  deriving DecidableEq

namespace Frame

/-- The frame after the last one, which asks to stop. -/
def closing : Frame := ⟨0, [.quit]⟩

def stops (f : Frame) : Bool := f.events.any Event.stops

def seconds (f : Frame) : Except ArithmeticError Number := do
  let ms ← Binary64.ofInt f.milliseconds
  let value ← ms.integral
  return .float (Binary64.nearest (value / (1000 : Rat)))

end Frame

/-- What a session meets outside the program. -/
structure Surroundings where
  files : FileTree
  frames : List Frame
  audio : AudioDevice
  random : RandomScript
  deriving DecidableEq

inductive Failure
  | nullInName
  | tone (e : ToneError)
  | window (e : WindowError)
  | arithmetic (e : ArithmeticError)
  deriving DecidableEq

namespace Failure

def message : Failure → String
  | nullInName => "embedded null byte"
  | tone e => e.message
  | window e => e.message
  | arithmetic e => e.message

end Failure

structure Session where
  /-- The exit status, unless the session broke off. -/
  ending : Except Failure Nat
  machine : Option Machine
  log : List Report
  turns : Nat
  /-- The window after each time it was painted, with the number of the turn. -/
  windows : List (Nat × Surface)

namespace Session

def frameRate : Nat := 60

def ended (status : Nat) (machine : Option Machine) (log : List Report) : Session :=
  ⟨.ok status, machine, log, 0, []⟩

def failed (e : Failure) (machine : Option Machine) (log : List Report) : Session :=
  ⟨.error e, machine, log, 0, []⟩

def handleAll (m : Machine) (f : Frame) : Machine :=
  f.events.foldl Machine.handle m

structure Turn where
  machine : Machine
  window : Surface
  log : List Report
  painted : Bool

/-- The window painted if the display has been drawn on; then it counts as shown. -/
def refresh (paint : Display → Surface → Surface) (m : Machine) (window : Surface)
    (log : List Report) : Turn :=
  if m.drawn then
    ⟨{ m with drawn := false }, paint m.display window, log, true⟩
  else ⟨m, window, log, false⟩

/-- One turn. A time that has no number of cycles breaks it off, and the machine is
left as it was then. -/
def turn (paint : Display → Surface → Surface) (threshold : Level) (m : Machine)
    (window : Surface) (f : Frame) : Except (ArithmeticError × Machine) Turn :=
  match f.seconds with
  | .error e => .error (e, m)
  | .ok seconds =>
    let ready := handleAll m f
    match ready.cyclesFor seconds with
    | .error e => .error (e, ready)
    | .ok count =>
      let ran := Machine.cyclesLogged threshold count.toNat ready []
      .ok (refresh paint ran.1 window (ran.2.reverse.map Report.machine))

/-- The turns from the one with the given number on, up to the first that is asked
to stop. -/
def loop (paint : Display → Surface → Surface) (threshold : Level) (number : Nat)
    (m : Machine) (window : Surface) : List Frame → Session
  | [] => ended 0 (some m) []
  | f :: rest =>
    match turn paint threshold m window f with
    | .error (e, left) => ⟨.error (.arithmetic e), some left, [], 1, []⟩
    | .ok t =>
      let windows := if t.painted then [(number, t.window)] else []
      if f.stops then ⟨.ok 0, some t.machine, t.log, 1, windows⟩
      else
        let later := loop paint threshold (number + 1) t.machine t.window rest
        { later with
          log := t.log ++ later.log
          turns := later.turns + 1
          windows := windows ++ later.windows }

def finish (s : Session) : Session :=
  match s.ending, s.machine with
  | .ok _, some m => { s with log := s.log ++ [.finalState m.dump] }
  | _, _ => s

def settings (o : Options) (s : Surroundings) : Settings where
  cycleRate := .int o.cycleRate
  timerDivider := .int o.timerDivider
  sound := if s.audio = .unavailable then .muted else .speaker
  random := s.random

/-- A session with a program in memory. -/
def play (o : Options) (s : Surroundings) (threshold : Level) (m : Machine) : Session :=
  match Tone.standard.prepare s.audio with
  | .error e => failed (.tone e) (some m) []
  | .ok samples =>
    let silence := if samples.isNone then [.audioUnavailable] else []
    let view := Viewport.ofRatio o.scale
    match view.opened with
    | .error e => failed (.window e) (some m) silence
    | .ok window =>
      let turns :=
        finish (loop view.render threshold 1 m window (s.frames ++ [Frame.closing]))
      { turns with log := silence ++ turns.log }

/-- The least level that is written to the log. -/
def threshold (o : Options) : Level := if o.debug then .debug else .info

/-- A session with the given contents of the program file. -/
def withContents (o : Options) (s : Surroundings) (contents : Except ReadError (List Byte)) :
    Session :=
  match contents with
  | .error e => ended 1 none [.romUnreadable o.rom e]
  | .ok program =>
    let m := Machine.initial (settings o s)
    match m.load (program.map fun b => (b.toNat : Int)) Machine.programStart with
    | .error e => ended 1 (some m) [.romRejected o.rom e]
    | .ok loaded =>
      let turns := play o s (threshold o) loaded
      { turns with
        log := .machine (.loaded program.length Machine.programStart) ::
          .romLoaded o.rom program.length :: turns.log }

def filtered (o : Options) (s : Session) : Session :=
  { s with log := s.log.filter fun r => r.level.passes (threshold o) }

def run (o : Options) (s : Surroundings) : Session :=
  if o.rom.toList.contains (Char.ofNat 0) then failed .nullInName none []
  else filtered o (withContents o s (s.files.read o.rom))

end Session
end ChipEight

import ChipEight.Emulator.Program
import ChipEight.Emulator.Script

/-!
# Command

The program on a terminal. Frames are read from the standard input, one on a
line; the window is written to the standard output each time it is painted, and
the log to the standard error.
-/

namespace ChipEight
namespace Command

def contents (name : String) : IO (Except ReadError (List Byte)) := do
  try
    let bytes ← IO.FS.readBinFile name
    return .ok (bytes.toList.map fun b => b.toBitVec)
  catch e =>
    match e with
    | .inappropriateType .. => return .error .isADirectory
    | _ => return .error .notFound

partial def frames (input : IO.FS.Stream) : IO (List Frame) := do
  let line ← input.getLine
  if line.isEmpty then return []
  let rest ← frames input
  match Frame.ofLine? line.trimAscii.toString with
  | some f => return f :: rest
  | none => return rest

/-- A session written out; the exit status is that of a failed program where the
session broke off. -/
def present (s : Session) : IO UInt32 := do
  for (_, window) in s.windows do
    for line in window.lines do
      IO.println line
  IO.eprint (Transcript.played s).stderr
  match s.ending with
  | .ok status => return status.toUInt32
  | .error e =>
    IO.eprintln e.message
    return 1

end Command
end ChipEight

open ChipEight in
def main (args : List String) : IO UInt32 := do
  match Options.ofArguments args with
  | .error e =>
    IO.print e.stdout
    IO.eprint e.stderr
    if let some failure := e.failure? then IO.eprintln failure
    return e.code.toUInt32
  | .ok o =>
    let dice ← (List.range 4096).mapM fun _ => IO.rand 0 255
    let surroundings : Surroundings := {
      files := ⟨[], []⟩
      frames := ← Command.frames (← IO.getStdin)
      audio := .unavailable
      random := ⟨dice.map (BitVec.ofNat 8)⟩ }
    let program ← Command.contents o.rom
    Command.present (Session.filtered o (Session.withContents o surroundings program))

import ChipEight.Machine.Timers
import ChipEight.Numeric.Width

/-!
# Tone

The beep is a short square wave. A sound device fixes the sample rate and the
number of channels; the wave then has a whole number of samples in each half
period, at least one, and every channel of a frame has the same sample.
-/

namespace ChipEight

inductive AudioDevice
  | unavailable
  /-- One is open and does not tell its format. -/
  | unknownFormat
  | format (rate channels : Int)
  deriving DecidableEq

namespace AudioDevice

/-- What is asked for when a device is opened: the sample rate, the sample size
with a sign for signed samples, and the number of channels. -/
def request : List Int := [22050, -16, 1]

end AudioDevice

inductive ToneError
  | unknownFormat
  | arithmetic (cause : ArithmeticError)
  /-- The number of channels needs more than 64 bits. -/
  | channelsTooWide
  /-- The list of a frame's samples would have more bytes than 64 bits count. -/
  | outOfMemory
  deriving DecidableEq

namespace ToneError

def message : ToneError → String
  | unknownFormat => "cannot unpack non-iterable NoneType object"
  | arithmetic cause => cause.message
  | channelsTooWide => "cannot fit 'int' into an index-sized integer"
  | outOfMemory => ""

end ToneError

/-- A square wave of a frequency in hertz and a duration in seconds. -/
structure Tone where
  frequency : Number
  duration : Number
  deriving DecidableEq

namespace Tone

def standard : Tone where
  frequency := .int 440
  duration := .float (Binary64.nearest (mkRat 1 10))

def volume : Int := 4096

/-- Frames in half a period, at least one. -/
def halfPeriod (t : Tone) (rate : Int) : Except ArithmeticError Nat := do
  let period ← t.frequency.mul (.int 2)
  let frames ← Number.floorDivide rate period
  return max 1 (frames.getD 1).toNat

def frameCount (t : Tone) (rate : Int) : Except ArithmeticError Nat := do
  let length ← (Number.int rate).mul t.duration
  let frames ← length.truncate
  return frames.toNat

/-- The sample of a frame: up in even half periods and down in odd ones. -/
def level (half frame : Nat) : Int :=
  if frame / half % 2 = 0 then volume else -volume

def wave (half frames channels : Nat) : List Int :=
  (List.range frames).flatMap fun frame => List.replicate channels (level half frame)

/-- The number of samples in a frame; less than no channels are none. A frame is a list
before its samples are packed, and a list has eight bytes for each element. -/
def frameWidth (channels : Int) : Except ToneError Nat :=
  if !Width.fits64 channels then .error .channelsTooWide
  else if !Width.fits64 (8 * channels.toNat) then .error .outOfMemory
  else .ok channels.toNat

/-- The samples of the tone for a device format. The channels are looked at only if
there is a frame. -/
def samples (t : Tone) (rate channels : Int) : Except ToneError (List Int) := do
  let half ← (t.halfPeriod rate).mapError .arithmetic
  let frames ← (t.frameCount rate).mapError .arithmetic
  if frames = 0 then return []
  let width ← frameWidth channels
  return wave half frames width

/-- The bytes of a sample, low byte first. -/
def sampleBytes (sample : Int) : List Byte :=
  [BitVec.ofInt 8 sample, BitVec.ofInt 8 (Int.fdiv sample 256)]

def bytes (samples : List Int) : List Byte :=
  samples.flatMap sampleBytes

def prepare (t : Tone) : AudioDevice → Except ToneError (Option (List Int))
  | .unavailable => .ok none
  | .unknownFormat => .error .unknownFormat
  | .format rate channels => (t.samples rate channels).map some

theorem length_wave (half frames channels : Nat) :
    (wave half frames channels).length = frames * channels := by
  induction frames with
  | zero => simp [wave]
  | succ frames ih =>
    rw [wave] at ih ⊢
    rw [List.range_succ, List.flatMap_append, List.length_append, ih]
    simp [Nat.succ_mul]

end Tone
end ChipEight

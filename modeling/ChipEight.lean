import ChipEight.Numeric.Hex
import ChipEight.Numeric.Number
import ChipEight.Text.Quoted
import ChipEight.Text.Numeral
import ChipEight.Instruction.Assembly
import ChipEight.Machine.Cycle
import ChipEight.RunLength
import ChipEight.Machine.Operation
import ChipEight.Machine.Difference
import ChipEight.Tone
import ChipEight.CommandLine.Reading
import ChipEight.Emulator.Program
import ChipEight.Main
import ChipEight.Proofs.Dispatch
import ChipEight.Proofs.Nesting
import ChipEight.Proofs.Freshness
import ChipEight.Proofs.Playing
import ChipEight.Proofs.Timekeeping
import ChipEight.Proofs.Beeps
import ChipEight.Proofs.Frame
import ChipEight.Proofs.Waiting
import ChipEight.Proofs.Likeness
import ChipEight.Proofs.Renewal
import ChipEight.Proofs.Isolation
import ChipEight.Proofs.Aliasing
import ChipEight.Proofs.KeyHistory
import ChipEight.Proofs.Randomness
import ChipEight.Proofs.Coding
import ChipEight.Proofs.Hexadecimal
import ChipEight.Proofs.Listing
import ChipEight.Proofs.RegisterDump
import ChipEight.Proofs.Rejection
import ChipEight.Proofs.Drawing
import ChipEight.Proofs.Overlay
import ChipEight.Proofs.Arithmetic
import ChipEight.Proofs.ProgramCounter
import ChipEight.Proofs.Loading
import ChipEight.Proofs.BlockTransfer
import ChipEight.Proofs.Glyphs
import ChipEight.Proofs.Exactness
import ChipEight.Proofs.Running
import ChipEight.Proofs.Scaling
import ChipEight.Proofs.Painting
import ChipEight.Proofs.Delivery
import ChipEight.Proofs.SquareWave
import ChipEight.Proofs.Numerals
import ChipEight.Proofs.Spellings
import ChipEight.Proofs.Settings

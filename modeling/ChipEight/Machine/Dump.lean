import ChipEight.Machine.Basic
import ChipEight.Instruction.Assembly

/-!
# Register dump

The registers as text: the program counter with the last operation word and its
assembly, then the sixteen registers, the index and the stack pointer.
-/

namespace ChipEight
namespace Machine

/-- The first line: counter, operation word and its assembly. -/
def dumpCounter (m : Machine) : String :=
  "PC: " ++ Hex.spaced 4 m.pc.toNat ++ "  OP: " ++ Hex.padded 4 m.operand ++ "  " ++
    Word.disassemble (BitVec.ofInt 16 m.operand) ++ "\n"

def dumpRegister (m : Machine) (x : Register) : String :=
  Instruction.registerText x ++ ": " ++ Hex.spaced 2 (m.register x).toNat ++ "\n"

def dump (m : Machine) : String :=
  m.dumpCounter ++ String.join ((List.finRange 16).map m.dumpRegister) ++
    "I: " ++ Hex.spaced 4 m.index ++ "\n" ++
    "SP: " ++ Hex.plain m.stack.pointer.val ++ "\n"

end Machine
end ChipEight

import ChipEight.Machine.Execute
import ChipEight.Machine.Place

/-!
# Direct calls

An instruction can be asked for by its mnemonic and any integers as operands. A
number that should name a register may count from the end, and one that names
none makes the call fail. Most calls fail before anything happens; the block
transfers and the random numbers fail only when they get to the missing register.

A constant loaded into a register stays the number that it is. The registers here
hold bytes, so a machine is followed through such a call only if the constant is
one (`Operation.storesBytes`).
-/

namespace ChipEight

/-- What a mnemonic with operands asks for. -/
inductive Call
  | instruction (i : Instruction)
  /-- A register compared with any number; the next instruction is skipped if they
  are equal, or if they are not. -/
  | compare (x : Register) (value : Int) (equal : Bool)
  | drawRows (x y : Register) (rows : Nat)
  | pointAt (address : Int)
  | waitFor (slot : Int)
  /-- The registers from the first to the one with the given number. -/
  | store (last : Int)
  | load (last : Int)
  /-- A random byte that no register can take. -/
  | randomInVain (e : MachineError)
  deriving DecidableEq

namespace Call

open Machine (register?)

def single (access : Access) (make : Register → Instruction) (x : Int) :
    Except MachineError Call := do
  return .instruction (make (← register? access x))

/-- A call that reads two registers, the first operand first. -/
def pair (make : Register → Register → Instruction) (x y : Int) :
    Except MachineError Call := do
  let a ← register? .read x
  let b ← register? .read y
  return .instruction (make a b)

/-- A call that reads two registers, the second operand first. -/
def pairBackwards (make : Register → Register → Instruction) (x y : Int) :
    Except MachineError Call := do
  let b ← register? .read y
  let a ← register? .read x
  return .instruction (make a b)

def comparison (equal : Bool) (x value : Int) : Except MachineError Call := do
  return .compare (← register? .read x) value equal

def copying (x y : Int) : Except MachineError Call := do
  let b ← register? .read y
  let a ← register? .write x
  return .instruction (.copy a b)

/-- A sprite; rows below the display need not be looked at. -/
def drawing (x y rows : Int) : Except MachineError Call := do
  let a ← register? .read x
  let b ← register? .read y
  return .drawRows a b (min rows.toNat Display.height)

def rolling (x : Int) (mask : Byte) : Call :=
  match register? .write x with
  | .ok a => .instruction (.random a mask)
  | .error e => .randomInVain e

/-- What a mnemonic asks for, given as many operands as it has parameters. -/
def ofFitting (mnemonic : String) (operands : List Int) : Except MachineError Call :=
  match mnemonic, operands with
  | "CLS", [] => .ok (.instruction .clear)
  | "RET", [] => .ok (.instruction .ret)
  | "SYS", [a] => .ok (.instruction (.sys (BitVec.ofInt 16 a)))
  | "JP", [a] => .ok (.instruction (.jump (BitVec.ofInt 16 a)))
  | "CALL", [a] => .ok (.instruction (.call (BitVec.ofInt 16 a)))
  | "SE_BYTE", [x, b] => comparison true x b
  | "SNE_BYTE", [x, b] => comparison false x b
  | "SE_REG", [x, y] => pair .skipEqReg x y
  -- nothing masks this constant: what is said of the call is said of bytes only
  | "LD_BYTE", [x, b] => single .write (.loadByte · (BitVec.ofInt 8 b)) x
  | "ADD_BYTE", [x, b] => single .read (.addByte · (BitVec.ofInt 8 b)) x
  | "LD_REG", [x, y] => copying x y
  | "OR", [x, y] => pair .or x y
  | "AND", [x, y] => pair .and x y
  | "XOR", [x, y] => pair .xor x y
  | "ADD_REG", [x, y] => pair .addReg x y
  | "SUB", [x, y] => pairBackwards .sub x y
  | "SHR", [x, _] => single .read (.shiftRight · 0) x
  | "SUBN", [x, y] => pairBackwards .subFrom x y
  | "SHL", [x, _] => single .read (.shiftLeft · 0) x
  | "SNE_REG", [x, y] => pair .skipNeReg x y
  | "LD_INDEX", [a] => .ok (.pointAt a)
  | "JP_V0", [a] => .ok (.instruction (.jumpOffset (BitVec.ofInt 16 a)))
  | "RND", [x, b] => .ok (rolling x (BitVec.ofInt 8 b))
  | "DRW", [x, y, n] => drawing x y n
  | "SKP", [x] => single .read .skipPressed x
  | "SKNP", [x] => single .read .skipReleased x
  | "LD_DELAY", [x] => single .write .readDelay x
  | "LD_KEY", [x] => .ok (.waitFor x)
  | "SET_DELAY", [x] => single .read .setDelay x
  | "SET_SOUND", [x] => single .read .setSound x
  | "ADD_INDEX", [x] => single .read .addIndex x
  | "LD_FONT", [x] => single .read .glyph x
  | "BCD", [x] => single .read .decimal x
  | "STORE", [x] => .ok (.store x)
  | "LOAD", [x] => .ok (.load x)
  | _, _ => .error (.unknownMnemonic mnemonic)

def ofOperands (mnemonic : String) (operands : List Int) : Except MachineError Call :=
  match Signature.ofMnemonic? mnemonic with
  | none => .error (.unknownMnemonic mnemonic)
  | some s =>
    if s.accepts operands then ofFitting mnemonic operands
    else .error (.operandCount s operands.length)

/-- Whether there is a register for everything that a call transfers. -/
def result : Call → Except MachineError Unit
  | .store last => if last < 16 then .ok () else .error (.outOfRange .read)
  | .load last => if last < 16 then .ok () else .error (.outOfRange .write)
  | .randomInVain e => .error e
  | _ => .ok ()

end Call

namespace Machine

/-- On to the next instruction after a block transfer that has come to its end. -/
def afterBlock (m : Machine) (last : Int) : Machine :=
  if last < 16 then m.advance.wrap else m

def call (m : Machine) : Call → Machine
  | .instruction i => m.execute (some i)
  | .compare x value equal =>
    (m.skipIf (decide (((m.register x).toNat : Int) = value) == equal)).wrap
  | .drawRows x y rows => (m.drawRows x y rows).wrap
  | .pointAt address => (m.pointAt address).wrap
  | .waitFor slot => (m.waitFor slot).wrap
  | .store last => (m.storeRegisters (last + 1).toNat).afterBlock last
  | .load last => (m.loadRegisters (last + 1).toNat).afterBlock last
  | .randomInVain _ => { m with randomCount := m.randomCount + 1 }

def callLog (m : Machine) : Call → List Message
  | .instruction i => m.executeLog (some i)
  | _ => []

end Machine
end ChipEight

import ChipEight.Machine.Basic
import ChipEight.Machine.Message

/-!
# Executing instructions

What an instruction does to the machine. An instruction moves the program counter
itself, and afterwards the counter is brought back into memory. Where it sets the
flag register, that happens after its result is written.
-/

namespace ChipEight
namespace Machine

def advance (m : Machine) : Machine := { m with pc := m.pc + 2 }

def skipIf (m : Machine) (condition : Bool) : Machine :=
  { m with pc := m.pc + (if condition then 4 else 2) }

/-- Whether a register holds the number of a key that is down. -/
def keyDown (m : Machine) (x : Register) : Bool :=
  if h : (m.register x).toNat < 16 then m.isDown ⟨(m.register x).toNat, h⟩ else false

def sprite (m : Machine) (x y : Register) (rows : Nat) : Sprite where
  x := (m.register x).toNat
  y := (m.register y).toNat
  rows := m.memory.readBlock m.base rows

def drawRows (m : Machine) (x y : Register) (rows : Nat) : Machine :=
  let s := m.sprite x y rows
  advance { m.setFlag (m.display.collides s) with
    display := m.display.draw s, drawn := true }

def pointAt (m : Machine) (address : Int) : Machine := advance { m with index := address }

def waitFor (m : Machine) (slot : Int) : Machine := advance { m with blocked := some slot }

def decimalDigits (b : Byte) : List Byte :=
  [BitVec.ofNat 8 (b.toNat / 100), BitVec.ofNat 8 (b.toNat / 10 % 10),
    BitVec.ofNat 8 (b.toNat % 10)]

def storeRegisters (m : Machine) (count : Nat) : Machine :=
  { m with memory := m.memory.writeBlock m.base (m.registers.toList.take count) }

def loadRegisters (m : Machine) (count : Nat) : Machine :=
  { m with
    registers := m.registers.mapIdx fun k old =>
      if k < count then m.memory.read (m.base + k) else old }

/-- The effect of an instruction, with the program counter not yet wrapped. -/
def perform (m : Machine) : Instruction → Machine
  | .clear => advance { m with display := Display.blank, drawn := true }
  | .ret => { m with stack := m.stack.pop, pc := m.stack.top + 2 }
  | .sys _ => m.advance
  | .jump a => { m with pc := a }
  | .call a => { m with stack := m.stack.push m.pc, pc := a }
  | .skipEqByte x b => m.skipIf (m.register x == b)
  | .skipNeByte x b => m.skipIf (m.register x != b)
  | .skipEqReg x y => m.skipIf (m.register x == m.register y)
  | .skipNeReg x y => m.skipIf (m.register x != m.register y)
  | .loadByte x b => (m.setRegister x b).advance
  | .addByte x b => (m.setRegister x (m.register x + b)).advance
  | .copy x y => (m.setRegister x (m.register y)).advance
  | .or x y => (m.setRegister x (m.register x ||| m.register y)).advance
  | .and x y => (m.setRegister x (m.register x &&& m.register y)).advance
  | .xor x y => (m.setRegister x (m.register x ^^^ m.register y)).advance
  | .addReg x y =>
    let a := m.register x
    let b := m.register y
    ((m.setRegister x (a + b)).setFlag (255 < a.toNat + b.toNat)).advance
  | .sub x y =>
    let a := m.register x
    let b := m.register y
    ((m.setRegister x (a - b)).setFlag (b.toNat < a.toNat)).advance
  | .subFrom x y =>
    let a := m.register x
    let b := m.register y
    ((m.setRegister x (b - a)).setFlag (a.toNat < b.toNat)).advance
  | .shiftRight x _ =>
    let a := m.register x
    ((m.setRegister x (a >>> 1)).setFlag (a.getLsbD 0)).advance
  | .shiftLeft x _ =>
    let a := m.register x
    ((m.setRegister x (a <<< 1)).setFlag (a.getLsbD 7)).advance
  | .loadIndex a => m.pointAt a.toNat
  | .jumpOffset a => { m with pc := a + BitVec.setWidth 16 (m.register 0) }
  | .random x b =>
    advance { m.setRegister x (b &&& m.settings.random.byte m.randomCount) with
      randomCount := m.randomCount + 1 }
  | .draw x y rows => m.drawRows x y rows.val
  | .skipPressed x => m.skipIf (m.keyDown x)
  | .skipReleased x => m.skipIf (!m.keyDown x)
  | .readDelay x => (m.setRegister x m.timers.delay).advance
  | .waitKey x => m.waitFor x.val
  | .setDelay x => advance { m with timers := { m.timers with delay := m.register x } }
  | .setSound x => advance { m with timers := { m.timers with sound := m.register x } }
  | .addIndex x => m.pointAt ((m.index + (m.register x).toNat) % 65536)
  | .glyph x =>
    m.pointAt ((m.register x).toNat * Memory.glyphSize : Nat)
  | .decimal x =>
    advance { m with memory := m.memory.writeBlock m.base (decimalDigits (m.register x)) }
  | .store x => (m.storeRegisters (x.val + 1)).advance
  | .load x => (m.loadRegisters (x.val + 1)).advance

/-- The program counter brought back into memory. -/
def wrap (m : Machine) : Machine := { m with pc := Word.address m.pc }

/-- The machine after an instruction; where there is none it is skipped over. -/
def execute (m : Machine) : Option Instruction → Machine
  | some i => (m.perform i).wrap
  | none => m.advance.wrap

/-- What executing an instruction reports, seen from the machine before it. -/
def executeLog (m : Machine) : Option Instruction → List Message
  | some .ret => if m.stack.isEmpty then [.returnWithoutCall m.pc] else []
  | some (.call _) =>
    if m.stack.isFull then [.callOverflow m.pc m.stack.pointer.val] else []
  | some _ => []
  | none => [.skipped m.operand m.pc]

def withOperand (m : Machine) (word : Int) : Machine := { m with operand := word }

/-- An operation word executed directly, without a fetch and without a tick. -/
def executeWord (m : Machine) (word : Int) : Machine :=
  (m.withOperand word).execute (Instruction.ofInt? word)

def executeWordLog (m : Machine) (word : Int) : List Message :=
  (m.withOperand word).executeLog (Instruction.ofInt? word)

end Machine
end ChipEight

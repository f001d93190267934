import ChipEight.Machine.CallStack
import ChipEight.Machine.Display
import ChipEight.Machine.Memory
import ChipEight.Machine.Timers

/-!
# Machine state

The settings a machine is made with and everything it changes while it runs. A
new machine has the font in memory, its program counter at the start of the
program area and zeros everywhere else.
-/

namespace ChipEight

abbrev Key := Fin 16

/-- Where a beep goes. -/
inductive Sound
  | absent
  /-- A sound is played, and counted. -/
  | speaker
  /-- There is no sound device, and a beep is only reported. -/
  | muted
  deriving DecidableEq

/-- Random bytes known in advance; after the last one they start again. -/
structure RandomScript where
  bytes : List Byte
  deriving DecidableEq

namespace RandomScript

def byte (s : RandomScript) (n : Nat) : Byte :=
  s.bytes[n % s.bytes.length]?.getD 0

end RandomScript

structure Settings where
  cycleRate : Number
  timerDivider : Number
  sound : Sound
  random : RandomScript
  deriving DecidableEq

structure Machine where
  settings : Settings
  memory : Memory
  registers : Vector Byte 16
  /-- Where the machine reads and writes memory; only its low twelve bits count. -/
  index : Int
  pc : Word
  stack : CallStack
  timers : Timers
  display : Display
  /-- Set when the display has been drawn on since it was last shown. -/
  drawn : Bool
  keys : Vector Bool 16
  /-- The number of the register that waits for a key. -/
  blocked : Option Int
  /-- The operation word of the last cycle or of the last direct execution. -/
  operand : Int
  beeps : Nat
  randomCount : Nat
  deriving DecidableEq

namespace Machine

def programStart : Nat := 0x200

def initial (settings : Settings) : Machine where
  settings := settings
  memory := Memory.initial
  registers := Vector.replicate 16 0
  index := 0
  pc := BitVec.ofNat 16 programStart
  stack := CallStack.empty
  timers := Timers.zero
  display := Display.blank
  drawn := false
  keys := Vector.replicate 16 false
  blocked := none
  operand := 0
  beeps := 0
  randomCount := 0

/-- Everything as in a new machine; beeps and random bytes stay counted. -/
def reset (m : Machine) : Machine :=
  { initial m.settings with beeps := m.beeps, randomCount := m.randomCount }

def isBlocked (m : Machine) : Bool := m.blocked.isSome

def fetch (m : Machine) : Word := m.memory.readWord m.pc.toNat

/-- The address that the index stands for. -/
def base (m : Machine) : Nat := (m.index % 4096).toNat

def register (m : Machine) (x : Register) : Byte := m.registers[x]

def setRegister (m : Machine) (x : Register) (b : Byte) : Machine :=
  { m with registers := m.registers.set x b }

def setFlag (m : Machine) (flag : Bool) : Machine :=
  m.setRegister flagRegister (if flag then 1 else 0)

def isDown (m : Machine) (k : Key) : Bool := m.keys[k]

def setKey (m : Machine) (k : Key) (down : Bool) : Machine :=
  { m with keys := m.keys.set k down }

/-- The index is brought back into memory before or after something is added to it. -/
theorem read_base_add (m : Machine) (k : Nat) :
    m.memory.read (m.base + k) = m.memory.read ((m.index + k) % 4096).toNat := by
  have hsame : (m.base + k) % 4096 = ((m.index + k) % 4096).toNat % 4096 := by
    unfold base
    omega
  simp only [Memory.read, hsame]

theorem register_setRegister (m : Machine) (x y : Register) (b : Byte) :
    (m.setRegister x b).register y = if x = y then b else m.register y := by
  by_cases h : x = y
  · subst h
    simp [register, setRegister]
  · have hne : x.val ≠ y.val := fun hv => h (Fin.ext hv)
    simp [register, setRegister, h, hne]

theorem flag_setFlag (m : Machine) (flag : Bool) :
    (m.setFlag flag).register flagRegister = if flag then 1 else 0 :=
  (register_setRegister m flagRegister flagRegister _).trans (if_pos rfl)

theorem register_setFlag (m : Machine) (flag : Bool) {z : Register} (hz : z ≠ flagRegister) :
    (m.setFlag flag).register z = m.register z :=
  (register_setRegister m flagRegister z _).trans (if_neg hz.symm)

theorem isDown_setKey (m : Machine) (k l : Key) (down : Bool) :
    (m.setKey k down).isDown l = if k = l then down else m.isDown l := by
  by_cases h : k = l
  · subst h
    simp [isDown, setKey]
  · have hne : k.val ≠ l.val := fun hv => h (Fin.ext hv)
    simp [isDown, setKey, h, hne]

end Machine
end ChipEight

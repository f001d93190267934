import ChipEight.Machine.Keypad

/-!
# Keyboard

The four by four block on the left of a keyboard stands in for the keypad:

    1 2 3 4        1 2 3 C
    Q W E R   ->   4 5 6 D
    A S D F        7 8 9 E
    Z X C V        A 0 B F

A key of the keyboard is known by its code, the character code for a letter or a
digit. Closing the window or pressing Escape asks to stop.
-/

namespace ChipEight

inductive Event
  | keyDown (code : Int)
  | keyUp (code : Int)
  | quit
  | other
  deriving DecidableEq

namespace Keyboard

def escapeCode : Int := 27

/-- Keyboard characters and the keys they stand for. -/
def layout : List (Char × Key) :=
  [('1', 0x1), ('2', 0x2), ('3', 0x3), ('4', 0xC),
   ('q', 0x4), ('w', 0x5), ('e', 0x6), ('r', 0xD),
   ('a', 0x7), ('s', 0x8), ('d', 0x9), ('f', 0xE),
   ('z', 0xA), ('x', 0x0), ('c', 0xB), ('v', 0xF)]

def key? (code : Int) : Option Key :=
  (layout.find? fun entry => (entry.1.toNat : Int) = code).map Prod.snd

end Keyboard

def Event.stops : Event → Bool
  | .quit => true
  | .keyDown code => code = Keyboard.escapeCode
  | _ => false

namespace Machine

/-- Whether an event passed on to the machine goes through, and whether the
program goes on after it. -/
def handleResult (m : Machine) (e : Event) : Except MachineError Bool :=
  match e with
  | .keyDown code =>
    match Keyboard.key? code with
    | some _ => m.pressResult.map fun _ => !e.stops
    | none => .ok (!e.stops)
  | _ => .ok (!e.stops)

def handle (m : Machine) : Event → Machine
  | .keyDown code =>
    match Keyboard.key? code with
    | some k => m.press k
    | none => m
  | .keyUp code =>
    match Keyboard.key? code with
    | some k => m.release k
    | none => m
  | .quit => m
  | .other => m

end Machine
end ChipEight

import ChipEight.Machine.Place

/-!
# Keypad

Keys go down and up. The first key that goes down while the machine waits is
stored in the waiting register and ends the wait. A direct call can make the
machine wait for a register that it does not have: then the key is down, but the
press fails and the wait goes on.
-/

namespace ChipEight
namespace Machine

def press (m : Machine) (k : Key) : Machine :=
  match m.blocked with
  | none => m.setKey k true
  | some slot =>
    match register? .write slot with
    | .ok x =>
      { (m.setKey k true).setRegister x (BitVec.ofNat 8 k.val) with blocked := none }
    | .error _ => m.setKey k true

/-- A key that goes down reaches the keys, a register and the wait. -/
theorem exists_press (m : Machine) (k : Key) : ∃ registers blocked, m.press k =
    { m with registers := registers, keys := (m.setKey k true).keys, blocked := blocked } := by
  unfold press
  split
  · exact ⟨_, _, rfl⟩
  · split <;> exact ⟨_, _, rfl⟩

/-- Whether a key that goes down can be stored where it is waited for. -/
def pressResult (m : Machine) : Except MachineError Unit :=
  match m.blocked with
  | none => .ok ()
  | some slot => (register? .write slot).map fun _ => ()

def release (m : Machine) (k : Key) : Machine := m.setKey k false

def pressedKeys (m : Machine) : List Key :=
  (List.finRange 16).filter m.isDown

theorem mem_pressedKeys {m : Machine} {k : Key} : k ∈ m.pressedKeys ↔ m.isDown k = true := by
  simp [pressedKeys]

end Machine
end ChipEight

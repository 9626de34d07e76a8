/-!
# The keypad

The keypad has sixteen keys, each pressed or released. A key is released again by the
instruction that finds it pressed, so that a key press is seen once.

## Main definitions

* `KeyEvent`, `Keypad`, `Keypad.isPressed`, `Keypad.apply`.

## Main results

* `isPressed_apply` — an event changes its own key only.
-/

namespace Chip8

/-- A key is pressed or released. -/
inductive KeyEvent where
  | press (key : UInt8)
  | release (key : UInt8)
  deriving DecidableEq, Repr

namespace KeyEvent

/-- The key that is pressed or released. -/
def key : KeyEvent → UInt8
  | press key => key
  | release key => key

/-- Whether the key is pressed after the event. -/
def isPress : KeyEvent → Bool
  | press _ => true
  | release _ => false

/-- What the slot of the key holds after the event. -/
def slot (e : KeyEvent) : UInt8 := if e.isPress then 1 else 0

/-- Whether the keypad has the key. -/
def isValid (e : KeyEvent) : Bool := e.key.toNat < 16

end KeyEvent

/-- A slot for each key, which is not zero while the key is pressed. -/
structure Keypad where
  slots : Vector UInt8 16
  deriving DecidableEq

namespace Keypad

/-- No key is pressed. -/
def released : Keypad := ⟨Vector.replicate 16 0⟩

/-- Whether a key is pressed; a key that does not exist never is. -/
def isPressed (k : Keypad) (key : UInt8) : Bool := k.slots[key.toNat]?.getD 0 != 0

/-- Which keys are pressed. -/
def keys (k : Keypad) : Vector Bool 16 := k.slots.map (· != 0)

/-- The keypad after an event; an event of a key that does not exist has no effect. -/
def apply (k : Keypad) (e : KeyEvent) : Keypad := ⟨k.slots.setIfInBounds e.key.toNat e.slot⟩

/-- An event changes its own key only, and only if the key exists. -/
theorem isPressed_apply (k : Keypad) (e : KeyEvent) (key : UInt8) :
    (k.apply e).isPressed key =
      if e.key = key ∧ key.toNat < 16 then e.isPress else k.isPressed key := by
  unfold isPressed apply
  by_cases hInside : key.toNat < 16
  · by_cases hSame : e.key = key
    · subst hSame
      cases hPress : e.isPress <;> simp [hInside, KeyEvent.slot, hPress]
    · have : e.key.toNat ≠ key.toNat := fun h => hSame (UInt8.toNat_inj.1 h)
      simp [hInside, hSame, this]
  · simp [hInside]

end Keypad

end Chip8

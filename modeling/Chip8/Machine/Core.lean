import Chip8.Machine.AccessLog
import Chip8.Machine.Keypad
import Chip8.Machine.Memory
import Chip8.Machine.Random
import Chip8.Machine.Registers
import Chip8.Machine.Screen
import Chip8.Machine.Timers

/-!
# The core of the machine

The core is what instructions act on: memory, registers, the call stack and the devices,
together with the log of what was touched. An instruction has no access to anything else
of the machine.

## Main definitions

* `Frame`, `Core`, `Core.initial`.
* `Core.setRegister`, `Core.setFlag`, `Core.advance`, `Core.skipIf`, `Core.release` —
  the parts of which the effects of instructions are made up.
-/

namespace Chip8

/-- A call that has not returned. -/
structure Frame where
  /-- The address of the call. -/
  caller : UInt16
  /-- The address that was called. -/
  callee : UInt16
  /-- The address at which the return continues. -/
  returnAddress : UInt16
  deriving DecidableEq, Repr

/-- What instructions act on. -/
structure Core where
  memory : Memory
  registers : Registers
  /-- The address pointer `I`. -/
  index : UInt16
  pc : UInt16
  /-- The calls that have not returned, the innermost first. -/
  stack : List Frame
  keypad : Keypad
  screen : Screen
  timers : Timers
  random : Generator
  log : AccessLog

namespace Core

/-- The core of a machine without a program that is started at a time. -/
def initial (random : Generator) (now : Nat) : Core where
  memory := .zero
  registers := .zero
  index := 0
  pc := UInt16.ofNat programStart
  stack := []
  keypad := .released
  screen := .clear
  timers := .start now
  random := random
  log := .empty

/-- The addresses at which the open calls continue, the outermost first. -/
def returnAddresses (c : Core) : List UInt16 := (c.stack.map (·.returnAddress)).reverse

/-! ## Registers -/

/-- The core with another value in a register. -/
def setRegister (c : Core) (r : Register) (value : UInt8) : Core :=
  { c with registers := c.registers.set r value }

/-- The core with another value in the flag register. -/
def setFlag (c : Core) (value : UInt8) : Core := c.setRegister Register.flag value

@[simp] theorem registers_setRegister (c : Core) (r : Register) (value : UInt8) :
    (c.setRegister r value).registers = c.registers.set r value := rfl

/-! ## The program counter -/

/-- The core behind the instruction at the program counter. -/
def advance (c : Core) : Core := { c with pc := c.pc + 2 }

/-- The core behind one more instruction if a condition holds. -/
def skipIf (c : Core) (condition : Bool) : Core := if condition then c.advance else c

/-! ## The keypad -/

/-- The core when a key has been released. -/
def release (c : Core) (key : UInt8) : Core :=
  { c with keypad := c.keypad.apply (.release key) }

/-! ## Memory -/

/-- The byte at an address, and the core that has noted the reading. -/
def readByte (c : Core) (address : UInt16) : Except Fault (UInt8 × Core) := do
  let byte ← c.memory.get address.toNat
  return (byte, { c with log := c.log.add address .reading })

end Core

end Chip8

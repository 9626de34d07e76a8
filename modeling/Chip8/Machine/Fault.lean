import Chip8.Isa.Opcode
import Chip8.Text.Numeral

/-!
# Faults of the machine

## Main definitions

* `Fault` — why the machine refuses an operation; `Fault.message`, `Fault.help`.
-/

namespace Chip8

/-- Why the machine refuses an operation. -/
inductive Fault where
  /-- The word at the program counter is no instruction. -/
  | illegalOpcode (word : UInt16)
  /-- A return without a call before it. -/
  | stackUnderflow
  /-- A byte outside the memory; the address is that of the first such byte. -/
  | memoryOutOfBounds (address : Nat)
  /-- The program counter is odd, or outside the memory for programs. -/
  | pcOutOfBounds (pc : UInt16)
  /-- A key with a number above fifteen. -/
  | invalidKey (key : UInt8)
  /-- A program with more bytes than the memory for programs has. -/
  | programTooLarge (size : Nat)
  deriving DecidableEq, Repr

namespace Fault

/-- What is said about a fault. -/
def message : Fault → String
  | illegalOpcode word => "simulator executed illegal opcode 0x" ++ Text.hex 4 word.toNat
  | stackUnderflow => "returned from subroutine with an empty call stack"
  | memoryOutOfBounds address => "memory access out of bounds at 0x" ++ Text.hex 1 address
  | pcOutOfBounds pc => "PC 0x" ++ Text.hex 4 pc.toNat ++ " is out of bounds"
  | invalidKey key => "key " ++ Text.decimal key.toNat ++ " does not exist"
  | programTooLarge size =>
    "program of " ++ Text.decimal size ++ " bytes does not fit in memory"

/-- Advice on a fault. -/
def help : Fault → String
  | illegalOpcode _ => "the PC may have jumped into data"
  | stackUnderflow => "every RET should match an earlier CALL"
  | memoryOutOfBounds _ =>
    "memory addresses range from 0x000 to 0x" ++ Text.hex 3 (memorySize - 1)
  | pcOutOfBounds _ =>
    "programs run from 0x" ++ Text.hex 3 programStart ++ " and instructions are 2-byte aligned"
  | invalidKey _ => "keys range from 0 to 15"
  | programTooLarge _ =>
    "programs can be at most " ++ Text.decimal programCapacity ++ " bytes"

end Fault

end Chip8

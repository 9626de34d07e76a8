import Chip8.Isa.Instruction
import Chip8.Machine.Comparator
import Chip8.Machine.Core

/-!
# Breakpoints

A breakpoint is a condition on the core, which is looked at when an instruction is done.
The condition on the operation goes by the word at the program counter alone, also where
no instruction would be fetched.

## Main definitions

* `Breakpoint`, `Breakpoint.check`, `Breakpoint.text`.
-/

namespace Chip8

/-- A condition on the state after an instruction. -/
inductive Breakpoint where
  | pc (address : UInt16)
  /-- The word at the program counter decodes to the operation. -/
  | operation (o : Operation)
  | register (r : Register) (c : Comparator)
  | index (c : Comparator)
  /-- The byte at an address inside the memory meets the condition. -/
  | memory (address : UInt16) (c : Comparator)
  | delay (c : Comparator)
  /-- The key is pressed. -/
  | key (key : UInt8)
  deriving DecidableEq, Repr

namespace Breakpoint

/-- Whether a core meets a breakpoint. -/
def check (b : Breakpoint) (core : Core) : Bool :=
  match b with
  | pc address => core.pc = address
  | operation o =>
    match (core.memory.word? core.pc.toNat).bind Instruction.decode? with
    | some i => i.operation = o
    | none => false
  | register r c => c.check (core.registers.get r).toUInt16
  | index c => c.check core.index
  | memory address c =>
    match core.memory.get? address.toNat with
    | some byte => c.check byte.toUInt16
    | none => false
  | delay c => c.check core.timers.delay.toUInt16
  | key k => core.keypad.isPressed k

/-- A breakpoint as it is shown. -/
def text : Breakpoint → String
  | pc address => "PC == 0x" ++ Text.hex 3 address.toNat
  | operation o => "op " ++ o.name
  | register r c => r.text ++ " " ++ c.text
  | index c => "I " ++ c.text
  | memory address c => "mem[0x" ++ Text.hex 3 address.toNat ++ "] " ++ c.text
  | delay c => "DELAY " ++ c.text
  | key k => "key " ++ Text.hex 1 k.toNat ++ " held"

/-- A breakpoint with a word in front that says what it is. -/
def summary (b : Breakpoint) : String := "Breakpoint(" ++ b.text ++ ")"

end Breakpoint

end Chip8

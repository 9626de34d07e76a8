import Chip8.Isa.Instruction
import Chip8.Machine.Change

/-!
# Executing an instruction

An instruction is fetched from the program counter, which must be even and point into
the memory for programs. It is executed in a core whose program counter is already
behind it, and changes that core part by part.

Arithmetic wraps at 8 bits in the registers and at 16 bits in the program counter and
the address pointer. Where an instruction sets a register and the flag, the flag is set
first, so that the register wins if it is `VF` itself; both values come from the
registers as they were before.

## Main definitions

* `Core.fetch` — the instruction at the program counter.
* `Instruction.execute` — the effect of an instruction.
-/

namespace Chip8

/-- The instruction at the program counter. -/
def Core.fetch (c : Core) : Except Fault Instruction :=
  if c.pc.toNat % 2 ≠ 0 ∨ c.pc.toNat < programStart then .error (.pcOutOfBounds c.pc)
  else
    match c.memory.word? c.pc.toNat with
    | none => .error (.pcOutOfBounds c.pc)
    | some word =>
      match Instruction.decode? word with
      | none => .error (.illegalOpcode word)
      | some i => .ok i

namespace Instruction

/-- A flag of one bit. -/
def bit (condition : Bool) : UInt8 := if condition then 1 else 0

/-- What an instruction does to the core, the program counter being behind it
already. -/
def execute (i : Instruction) : Change Unit := do
  let c ← get
  let x := i.x
  let vx := c.registers.get i.x
  let vy := c.registers.get i.y
  match i.operation with
  | .sys => pure ()
  | .clearScreen =>
    modify fun c => { c with screen := .clear }
    modify fun c => { c with log := c.log.noteDrawing }
  | .ret =>
    match c.stack with
    | [] => throw .stackUnderflow
    | frame :: stack =>
      modify fun c => { c with stack }
      modify fun c => { c with pc := frame.returnAddress }
  | .jump => modify fun c => { c with pc := i.nnn }
  | .call =>
    modify fun c => { c with stack := ⟨c.pc - 2, i.nnn, c.pc⟩ :: c.stack }
    modify fun c => { c with pc := i.nnn }
  | .skipEqValue => modify (·.skipIf (vx = i.nn))
  | .skipNeValue => modify (·.skipIf (vx ≠ i.nn))
  | .skipEqRegister => modify (·.skipIf (vx = vy))
  | .skipNeRegister => modify (·.skipIf (vx ≠ vy))
  | .loadValue => modify (·.setRegister x i.nn)
  | .addValue => modify (·.setRegister x (vx + i.nn))
  | .copy => modify (·.setRegister x vy)
  | .or => modify (·.setRegister x (vx ||| vy))
  | .and => modify (·.setRegister x (vx &&& vy))
  | .xor => modify (·.setRegister x (vx ^^^ vy))
  | .add =>
    modify (·.setFlag (bit (256 ≤ vx.toNat + vy.toNat)))
    modify (·.setRegister x (vx + vy))
  | .subtract =>
    modify (·.setFlag (bit (vy ≤ vx)))
    modify (·.setRegister x (vx - vy))
  | .subtractFrom =>
    modify (·.setFlag (bit (vx ≤ vy)))
    modify (·.setRegister x (vy - vx))
  | .shiftRight =>
    modify (·.setFlag (vx &&& 1))
    modify (·.setRegister x (vx >>> 1))
  | .shiftLeft =>
    modify (·.setFlag (vx &&& 0x80))
    modify (·.setRegister x (vx <<< 1))
  | .loadIndex => modify fun c => { c with index := i.nnn }
  | .jumpOffset =>
    modify fun c => { c with pc := i.nnn + (c.registers.get Register.zero).toUInt16 }
  | .random =>
    let (byte, random) := c.random.draw
    modify fun c => { c with random }
    modify (·.setRegister x (i.nn &&& byte))
  | .draw =>
    let rows ← Change.readBlock c.index i.n
    modify fun c => { c with screen := c.screen.draw vx.toNat vy.toNat rows }
    modify fun c => { c with log := c.log.noteDrawing }
    modify (·.setFlag (bit (c.screen.collides vx.toNat vy.toNat rows)))
  | .skipKey =>
    let key ← Change.keyIn x
    if c.keypad.isPressed key then
      modify (·.release key)
      modify (·.skipIf true)
  | .skipNotKey =>
    let key ← Change.keyIn x
    if c.keypad.isPressed key then modify (·.release key)
    else modify (·.skipIf true)
  | .readDelay => modify fun c => c.setRegister x c.timers.delay
  | .waitKey => pure ()
  | .setDelay => modify fun c => { c with timers := { c.timers with delay := vx } }
  | .setSound => modify fun c => { c with timers := { c.timers with sound := vx } }
  | .addIndex =>
    let sum := c.index + vx.toUInt16
    modify (·.setFlag (bit (0xFFF < sum)))
    modify fun c => { c with index := sum }
  | .fontIndex => modify fun c => { c with index := 5 * vx.toUInt16 }
  | .decimalDigits => Change.writeBlock c.index [vx / 100, vx / 10 % 10, vx % 10]
  | .storeRegisters =>
    Change.writeBlock c.index (c.registers.through x)
    modify fun c => { c with index := c.index + UInt16.ofNat (x.val + 1) }
  | .loadRegisters =>
    let values ← Change.readBlock c.index (x.val + 1)
    modify fun c => { c with registers := c.registers.setFirst values }

end Instruction

end Chip8

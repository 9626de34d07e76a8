import Chip8.Machine.Breakpoint
import Chip8.Machine.Core

/-!
# The state of the machine

Around the core stands what no instruction can see. One part of it is kept while a
program runs: the latest word, the number of instructions, and why the latest run
stopped. A reset gives this part and the core the values of a new machine. The other
part outlives a reset: the program itself, the seed if one is set, the breakpoints, and
what surrounds the machine. The surroundings are the clock, the key events that have
been sent and not yet delivered, and the random numbers that come up where no seed is
set.

## Main definitions

* `Pause`, `Machine`.
* `Machine.start`, `Machine.reset`, `Machine.load`.
* `Interlude`, `Machine.meanwhile` — what happens around a machine in a while.

## Main results

* `toCore_reset` — a reset leaves nothing of the core as it was.
* `load_eq_ok_iff`, `load_start` — loading is resetting with another program.
* `get?_memoryOf`, `word?_memoryOf` — where a program lies in memory.
-/

namespace Chip8

/-- Why the latest run stopped. -/
inductive Pause where
  | breakpoint
  | tripwire
  /-- It did not come to an orderly stop, or there was none. -/
  | unsuccessful
  deriving DecidableEq, Repr

/-- The state of the machine. -/
structure Machine extends Core where
  /-- The word of the latest instruction. -/
  opcode : UInt16
  /-- The number of instructions that were executed, modulo `2^64`. -/
  executed : UInt64
  pause : Pause
  /-- The program that a reset puts into memory. -/
  program : List UInt8
  /-- The seed from which a reset draws random numbers, if one is set. -/
  seed : Option UInt64
  /-- The conditions that stop a run, none of them twice. -/
  breakpoints : List Breakpoint
  /-- The key events that were sent and not yet delivered, the oldest first. -/
  pending : List KeyEvent
  /-- The time. -/
  clock : Nat
  /-- Where a reset gets its generator from. -/
  randomness : RandomSource
  program_fits : program.length ≤ programCapacity

namespace Machine

/-! ## Programs -/

/-- A new machine. -/
def start (seed : Option UInt64) (clock : Nat) (randomness : RandomSource := .chaCha) :
    Machine where
  toCore := .initial (randomness.generator seed) clock
  opcode := 0
  executed := 0
  pause := .unsuccessful
  program := []
  seed := seed
  breakpoints := []
  pending := []
  clock := clock
  randomness := randomness
  program_fits := Nat.zero_le _

/-- Memory with a program at the start of the memory for programs, and zeros
elsewhere. -/
def memoryOf (program : List UInt8) : Memory :=
  ⟨Memory.splice programStart program Memory.zero.bytes⟩

/-- The machine as it was after its program was loaded. Its parts are set back one by
one, and the program is copied into the memory that has been cleared. Sent key events
stay under way. -/
def reset (m : Machine) : Machine :=
  { m with
    memory := ⟨Memory.splice programStart m.program m.memory.clear.bytes⟩
    registers := .zero
    index := 0
    pc := UInt16.ofNat programStart
    stack := []
    keypad := .released
    screen := .clear
    timers := m.timers.restart m.clock
    random := m.randomness.generator m.seed
    log := .empty
    opcode := 0
    executed := 0
    pause := .unsuccessful }

/-- The machine with another program. -/
def load (m : Machine) (program : List UInt8) : Except Fault Machine :=
  if hFits : program.length ≤ programCapacity then
    .ok (reset { m with program, program_fits := hFits })
  else .error (.programTooLarge program.length)

/-- A reset leaves nothing of the core as it was. -/
theorem toCore_reset (m : Machine) :
    m.reset.toCore = { Core.initial (m.randomness.generator m.seed) m.clock with
      memory := memoryOf m.program } := by
  unfold reset memoryOf
  rw [Memory.clear_eq_zero]
  rfl

/-- Loading is resetting with another program, which has to fit. -/
theorem load_eq_ok_iff {m m' : Machine} {program : List UInt8} :
    m.load program = .ok m' ↔
      ∃ hFits : program.length ≤ programCapacity,
        m' = reset { m with program, program_fits := hFits } := by
  unfold load
  by_cases hFits : program.length ≤ programCapacity <;> simp [hFits, eq_comm]

/-- A new machine changes by loading a program only in what it has of the program. -/
theorem load_start (seed : Option UInt64) (clock : Nat) {randomness : RandomSource}
    {program : List UInt8} (hFits : program.length ≤ programCapacity) :
    (start seed clock randomness).load program =
      .ok { start seed clock randomness with
        memory := memoryOf program
        program
        program_fits := hFits } := by
  refine load_eq_ok_iff.2 ⟨hFits, ?_⟩
  simp only [reset, Memory.clear_eq_zero, Timers.restart_eq_start]
  rfl

/-- A program lies at the start of the memory for programs. -/
theorem get?_memoryOf {program : List UInt8} (hFits : program.length ≤ programCapacity)
    (address : Nat) :
    (memoryOf program).get? address =
      if programStart ≤ address ∧ address - programStart < program.length then
        program[address - programStart]?
      else if address < memorySize then some 0 else none := by
  have hStored : Memory.zero.store programStart program = .ok (memoryOf program) :=
    Memory.store_eq_ok_iff.2 ⟨by
      simp only [programStart, memorySize, programCapacity] at *
      omega, rfl⟩
  rw [Memory.get?_of_store_eq_ok hStored, Memory.get?_zero]

/-- The words of a program lie one after the other. -/
theorem word?_memoryOf {program : List UInt8} (hFits : program.length ≤ programCapacity) {k : Nat}
    (hInside : 2 * k + 1 < program.length) :
    (memoryOf program).word? (programStart + 2 * k) = (wordsOf program)[k]? := by
  have hByte : ∀ i < program.length,
      (memoryOf program).get? (programStart + i) = program[i]? := by
    intro i hBelow
    rw [get?_memoryOf hFits, if_pos (by omega), Nat.add_sub_cancel_left]
  rw [Memory.word?, hByte (2 * k) (by omega), Nat.add_assoc, hByte (2 * k + 1) hInside,
    getElem?_wordsOf, List.getElem?_eq_getElem hInside, List.getElem?_eq_getElem (by omega)]
  rfl

/-! ## What stands around the program -/

/-- Whether the latest run stopped at a breakpoint. -/
def hitBreakpoint (m : Machine) : Bool := m.pause = .breakpoint

/-- The machine with a further breakpoint; one that is there already is not entered
again. -/
def addBreakpoint (m : Machine) (b : Breakpoint) : Machine :=
  { m with breakpoints := m.breakpoints.insert b }

/-- The machine without a breakpoint. -/
def removeBreakpoint (m : Machine) (b : Breakpoint) : Machine :=
  { m with breakpoints := m.breakpoints.filter (· ≠ b) }

/-- Whether the core meets one of the breakpoints. -/
def atBreakpoint (m : Machine) : Bool := m.breakpoints.any (·.check m.toCore)

/-! ## What surrounds the machine -/

/-- The machine with one more key event under way. -/
def send (m : Machine) (e : KeyEvent) : Machine := { m with pending := m.pending ++ [e] }

end Machine

/-- What happens around a machine in a while: time passes, and key events are sent. -/
structure Interlude where
  duration : Nat
  /-- The oldest first. -/
  sent : List KeyEvent

/-- The machine behind an interlude. -/
def Machine.meanwhile (m : Machine) (i : Interlude) : Machine :=
  { m with
    clock := m.clock + i.duration
    pending := i.sent.foldl (fun queue e => queue ++ [e]) m.pending }

/-- Key events are sent one after the other. -/
theorem Machine.meanwhile_eq_foldl_send (m : Machine) (i : Interlude) :
    m.meanwhile i = i.sent.foldl send { m with clock := m.clock + i.duration } := by
  obtain ⟨duration, sent⟩ := i
  induction sent generalizing m with
  | nil => rfl
  | cons e sent ih => exact ih (m.send e)

end Chip8

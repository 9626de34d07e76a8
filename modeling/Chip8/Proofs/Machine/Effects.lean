import Chip8.Proofs.Machine.KeyDelivery
import Chip8.Proofs.Machine.Reported
import Chip8.Proofs.Machine.TimerCap

/-!
# What an instruction changes

Each component of the machine is changed by a few operations only, and most of them
change a part of it: some bytes of the memory, some registers, one end of the call
stack, one key, one timer. What is said here of a component names the operations and the
part, and leaves everything else as it was, whatever the operand bits of the instruction
are.

A step does more than its instruction. It delivers the key events under way in front of
it, and it offers a tick to the timers and counts the instruction behind it, so that the
keypad and the timers are compared with what these two would have left by themselves.

## Main definitions

* `Instruction.WritesRegister` — the registers that an instruction may change.
* `Machine.ChangesOnly` — what a step changes, component by component.

## Main results

* `Instruction.get_of_execute` — all other registers stay.
* `Machine.place_of_memory_step` — all other bytes stay.
* `Machine.changesOnly_of_step` — what a step changes, if it does not fail.
-/

namespace Chip8

open Change

private theorem Core.get_setRegister_of_ne (c : Core) {r q : Register} (hOther : q ≠ r)
    (value : UInt8) :
    (c.setRegister r value).registers.get q = c.registers.get q := by
  rw [Core.registers_setRegister, Registers.get_set, if_neg hOther.symm]

namespace Component

variable {o : Operation}

private theorem index_mem_touched :
    index ∈ o.touched ↔ o = .loadIndex ∨ o = .addIndex ∨ o = .fontIndex ∨ o = .storeRegisters := by
  cases o <;> decide

private theorem random_mem_touched : random ∈ o.touched ↔ o = .random := by
  cases o <;> decide

end Component

namespace Instruction

/-- The registers that an instruction may change. -/
def WritesRegister (i : Instruction) (r : Register) : Prop :=
  match i.operation with
  | .loadValue | .addValue | .copy | .or | .and | .xor | .random | .readDelay => r = i.x
  | .add | .subtract | .shiftRight | .subtractFrom | .shiftLeft => r = i.x ∨ r = Register.flag
  | .draw | .addIndex => r = Register.flag
  | .loadRegisters => r ≤ i.x
  | _ => False

variable {i : Instruction} {c after : Core}

/-- An instruction leaves alone the registers that it does not write. -/
theorem get_of_execute (hDone : i.execute.on c = (.ok (), after)) {r : Register}
    (hUnwritten : ¬ i.WritesRegister r) : after.registers.get r = c.registers.get r := by
  by_cases hTouched : .registers ∈ i.operation.touched
  · unfold execute at hDone
    rw [on_bind_of_ok (on_get c)] at hDone
    unfold WritesRegister at hUnwritten
    cases hOp : i.operation with
    | loadValue | addValue | copy | or | and | xor | random | readDelay =>
        simp only [hOp] at hDone hUnwritten
        rw [← (Prod.mk.inj hDone).2]
        exact Core.get_setRegister_of_ne _ hUnwritten _
    | add | subtract | shiftRight | subtractFrom | shiftLeft =>
        simp only [hOp, not_or] at hDone hUnwritten
        rw [← (Prod.mk.inj hDone).2]
        exact (Core.get_setRegister_of_ne _ hUnwritten.1 _).trans
          (Core.get_setRegister_of_ne _ hUnwritten.2 _)
    | addIndex =>
        simp only [hOp] at hDone hUnwritten
        rw [← (Prod.mk.inj hDone).2]
        exact c.get_setRegister_of_ne hUnwritten _
    | draw =>
        simp only [hOp] at hDone hUnwritten
        rcases on_bind_eq_ok_iff.1 hDone with ⟨rows, between, hBlock, hRest⟩
        rw [← (Prod.mk.inj hRest).2, (of_readBlock hBlock).2]
        exact Core.get_setRegister_of_ne _ hUnwritten _
    | loadRegisters =>
        -- The block has a byte for each of the registers up to `VX`, and no more.
        simp only [hOp] at hDone hUnwritten
        rcases on_bind_eq_ok_iff.1 hDone with ⟨values, between, hBlock, hRest⟩
        rcases of_readBlock hBlock with ⟨hRead, rfl⟩
        have hEnd : values.length ≤ r.val := by
          rw [Memory.length_of_block_eq_ok hRead]
          exact Nat.lt_of_not_le hUnwritten
        rw [← (Prod.mk.inj hRest).2]
        show (c.registers.setFirst values).get r = c.registers.get r
        rw [Registers.get_setFirst, List.getElem?_eq_none hEnd]
        rfl
    | _ => simp [hOp, Operation.touched] at hTouched
  · have hKept : after.registers = c.registers := by
      simpa only [hDone] using i.leaves.registers hTouched c
    rw [hKept]

private theorem index_eq_of_execute (hDone : i.execute.on c = (.ok (), after))
    (hOther : ¬ (i.operation = .loadIndex ∨ i.operation = .addIndex ∨ i.operation = .fontIndex ∨
      i.operation = .storeRegisters)) : after.index = c.index := by
  simpa only [hDone] using i.leaves.index (mt Component.index_mem_touched.1 hOther) c

private theorem random_eq_of_execute (hDone : i.execute.on c = (.ok (), after))
    (hOther : i.operation ≠ .random) : after.random = c.random := by
  simpa only [hDone] using i.leaves.random (mt Component.random_mem_touched.1 hOther) c

end Instruction

namespace Machine

variable {m m' : Machine} {i : Instruction}

/-- A step that executes an instruction changes of the machine, the log apart, only what
the instruction names. -/
structure ChangesOnly (m : Machine) (i : Instruction) (m' : Machine) : Prop where
  /-- The bytes of the three digits, and those of the registers up to `VX`. -/
  memory (address : Nat) (hChanged : m'.memory.get? address ≠ m.memory.get? address) :
    i.operation = .decimalDigits ∧ m.index.toNat ≤ address ∧ address ≤ m.index.toNat + 2 ∨
      i.operation = .storeRegisters ∧ m.index.toNat ≤ address ∧ address ≤ m.index.toNat + i.x.val
  registers (r : Register) (hChanged : m'.registers.get r ≠ m.registers.get r) :
    i.WritesRegister r
  index (hChanged : m'.index ≠ m.index) :
    i.operation = .loadIndex ∨ i.operation = .addIndex ∨ i.operation = .fontIndex ∨
      i.operation = .storeRegisters
  /-- Behind a jump, a call or a return, its target; behind any other instruction, the
  next one or the one after that. -/
  pc : m'.pc.toNat = i.target m.deliver.toCore
  stack (hChanged : m'.stack ≠ m.stack) : i.operation = .call ∨ i.operation = .ret
  /-- A call puts one frame on top. -/
  pushed (hCall : i.operation = .call) : ∃ frame, m'.stack = frame :: m.stack
  /-- A return takes one frame off. -/
  popped (hRet : i.operation = .ret) : ∃ frame, m.stack = frame :: m'.stack
  /-- Apart from the key events that are delivered, at most one key is released. -/
  keypad : m'.keypad = m.deliver.keypad ∨
    (i.operation = .skipKey ∨ i.operation = .skipNotKey) ∧
      m'.keypad = m.deliver.keypad.apply (.release (m.registers.get i.x))
  screen (hChanged : m'.screen ≠ m.screen) : i.operation = .clearScreen ∨ i.operation = .draw
  /-- Apart from the tick, one timer is set. -/
  timers : m'.timers = Timers.tick { m.timers with
    delay := if i.operation = .setDelay then m.registers.get i.x else m.timers.delay
    sound := if i.operation = .setSound then m.registers.get i.x else m.timers.sound } m.clock
  random (hChanged : m'.random ≠ m.random) : i.operation = .random
  /-- The word in front of the machine is noted, and the instruction is counted. -/
  counted : m.memory.word? m.pc.toNat = some i.word ∧ m'.opcode = i.word ∧
    m'.executed = m.executed + 1
  /-- Nothing is left of the key events, and nothing else around the core changes. -/
  around : m'.pending = [] ∧ m'.program = m.program ∧ m'.seed = m.seed ∧
    m'.breakpoints = m.breakpoints ∧ m'.pause = m.pause ∧ m'.clock = m.clock ∧
    m'.randomness = m.randomness

/-- A byte that a step has changed is in the block that its instruction writes. -/
theorem place_of_memory_step (hFetch : m.fetch = .ok i) (hStep : m.step = (m', none))
    {address : Nat} (hChanged : m'.memory.get? address ≠ m.memory.get? address) :
    i.operation = .decimalDigits ∧ m.index.toNat ≤ address ∧ address ≤ m.index.toNat + 2 ∨
      i.operation = .storeRegisters ∧ m.index.toNat ≤ address ∧
        address ≤ m.index.toNat + i.x.val := by
  have hInside : address < memorySize := by
    refine Nat.lt_of_not_le fun hOutside => hChanged ?_
    have hNone (memory : Memory) : memory.get? address = none :=
      Vector.getElem?_eq_none hOutside
    rw [hNone, hNone]
  have hPlace : (UInt16.ofNat address).toNat = address := by
    rw [UInt16.toNat_ofNat']
    exact Nat.mod_eq_of_lt (Nat.lt_trans hInside (by decide))
  have hKept := (notes_of_step hFetch hStep).1.kept (UInt16.ofNat address)
  rw [hPlace] at hKept
  have hWrites : i.Writes m.toCore (UInt16.ofNat address) :=
    Classical.byContradiction fun hUnwritten => hChanged (hKept hUnwritten)
  rcases hWrites with ⟨hOp, length, hLength, hFrom, hTo⟩
  rw [hPlace] at hFrom hTo
  rcases hOp with hOp | hOp
  · simp only [Instruction.blockLength?, hOp, Option.some.injEq] at hLength
    exact .inl ⟨hOp, hFrom, by omega⟩
  · simp only [Instruction.blockLength?, hOp, Option.some.injEq] at hLength
    exact .inr ⟨hOp, hFrom, by omega⟩

private theorem changesOnly_of_fetch (hFetch : m.fetch = .ok i) (hStep : m.step = (m', none)) :
    m.ChangesOnly i m' := by
  rcases exists_of_step_of_fetch hFetch hStep with ⟨after, hDone, hLeft⟩
  constructor
  case memory => exact fun address hChanged => place_of_memory_step hFetch hStep hChanged
  case registers =>
    refine fun r hChanged => Classical.byContradiction fun hUnwritten => hChanged ?_
    have hKept := Instruction.get_of_execute hDone hUnwritten
    rw [hLeft]
    exact hKept
  case index =>
    refine fun hChanged => Classical.byContradiction fun hOther => hChanged ?_
    have hKept := Instruction.index_eq_of_execute hDone hOther
    rw [hLeft]
    exact hKept
  case pc => exact (computesExactly hFetch).target hStep
  case stack =>
    intro hChanged
    rcases stack_of_step hStep with ⟨j, hFetch', hStack⟩
    obtain rfl : i = j := Except.ok.inj (hFetch.symm.trans hFetch')
    rcases hStack with ⟨hCall, -⟩ | ⟨hRet, -⟩ | ⟨-, hSame⟩
    · exact .inl hCall
    · exact .inr hRet
    · exact absurd hSame hChanged
  case pushed => exact fun hCall => ⟨_, stack_of_call_step hFetch hCall hStep⟩
  case popped =>
    intro hRet
    rcases exists_frame_of_ret_step hFetch hRet hStep with ⟨frame, hPopped, -⟩
    exact ⟨frame, hPopped⟩
  case keypad =>
    have hKeypad := Instruction.keypad_eq_of_execute hDone
    rw [hLeft]
    exact hKeypad
  case screen =>
    have hNotes := (notes_of_step hFetch hStep).1
    exact fun hChanged => Classical.byContradiction fun hUndrawn =>
      hChanged (hNotes.shown hUndrawn)
  case timers =>
    have hTimers : m'.timers = after.timers.tick m.clock := by
      rw [hLeft]
      rfl
    rw [hTimers, Instruction.timers_eq_of_execute hDone]
    rfl
  case random =>
    refine fun hChanged => Classical.byContradiction fun hOther => hChanged ?_
    have hKept := Instruction.random_eq_of_execute hDone hOther
    rw [hLeft]
    exact hKept
  case counted =>
    rw [hLeft]
    exact ⟨(Core.of_fetch hFetch).2.1, rfl, rfl⟩
  case around =>
    rw [hLeft]
    exact ⟨rfl, rfl, rfl, rfl, rfl, rfl, rfl⟩

/-- A step that does not fail changes only what its instruction names. -/
theorem changesOnly_of_step (hStep : m.step = (m', none)) :
    ∃ i, m.fetch = .ok i ∧ m.ChangesOnly i m' := by
  rcases exists_of_step_ok hStep with ⟨i, after, hFetch, -, -⟩
  exact ⟨i, hFetch, changesOnly_of_fetch hFetch hStep⟩

/-- A machine that stores two registers, while a key event is under way. -/
def storingTwo : Machine :=
  { Machine.start none 0 with
    memory := memoryOf [0xF1, 0x55]
    index := 0x300
    pending := [.press 3]
    program := [0xF1, 0x55]
    program_fits := by decide }

/-- The byte behind the two stays as it is. -/
theorem changesOnly_of_step_storing_two :
    ∃ m' i, storingTwo.step = (m', none) ∧ storingTwo.fetch = .ok i ∧
      storingTwo.ChangesOnly i m' ∧
      m'.memory.get? 0x302 = storingTwo.memory.get? 0x302 := by
  have hNoFault : storingTwo.step.2 = none := by decide +kernel
  have hStep : storingTwo.step = (storingTwo.step.1, none) := by rw [← hNoFault]
  have hStoring : storingTwo.fetch =
      .ok ⟨⟨.storeRegisters, .fx55, .register, none, 0xF055⟩, 0xF155⟩ :=
    Core.fetch_of_word (by decide +kernel) (by decide +kernel) (by decide +kernel)
  rcases changesOnly_of_step hStep with ⟨i, hFetch, hOnly⟩
  obtain rfl := Except.ok.inj (hStoring.symm.trans hFetch)
  refine ⟨_, _, hStep, hFetch, hOnly, Classical.byContradiction fun hChanged => ?_⟩
  rcases hOnly.memory 0x302 hChanged with ⟨hOther, -⟩ | ⟨-, -, hBehind⟩
  · exact absurd hOther (by decide)
  · exact absurd hBehind (by decide)

end Machine

end Chip8

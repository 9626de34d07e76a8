import Chip8.Machine.Execute
import Chip8.Machine.State

/-!
# Steps

A step delivers the key events that were sent, fetches the instruction at the program
counter, executes it, and offers a tick to the timers. Fetching moves the program
counter on and notes the word, and an instruction that fails has these two put back.

## Main definitions

* `Machine.deliver`, `Machine.begin`, `Machine.putBack`, `Machine.conclude` — what a
  step does around an instruction.
* `Machine.step`, `Machine.stepIn`.

## Main results

* `step_of_fetch_error`, `step_of_execute_error`, `step_of_execute_ok` — the three ways
  of a step.
* `executed_step` — a step that succeeds is counted.
-/

namespace Chip8.Machine

/-- The machine after the key events under way have reached the keypad, in order. -/
def deliver (m : Machine) : Machine :=
  { m with keypad := m.pending.foldl Keypad.apply m.keypad, pending := [] }

/-- The machine that has fetched an instruction. -/
def begin (m : Machine) (i : Instruction) : Machine :=
  { m with toCore := m.advance, opcode := i.word }

/-- The machine whose instruction failed and left the core as `after`, back at this
instruction. The program counter and the word are those from before it was fetched. -/
def putBack (m : Machine) (pc opcode : UInt16) (after : Core) : Machine :=
  { m with toCore := { after with pc }, opcode }

/-- The machine when it is done with an instruction that left the core as `after`. -/
def conclude (m : Machine) (after : Core) : Machine :=
  { m with
    toCore := { after with
      log := after.log.noteRegisters m.registers after.registers
      timers := after.timers.tick m.clock }
    executed := m.executed + 1 }

/-- The machine after one instruction, or the fault that it met. -/
def step (m : Machine) : Machine × Option Fault :=
  let m := m.deliver
  match m.fetch with
  | .error fault => (m, some fault)
  | .ok i =>
    match i.execute.on (m.begin i).toCore with
    | (.error fault, after) => ((m.begin i).putBack m.pc m.opcode after, some fault)
    | (.ok (), after) => ((m.begin i).conclude after, none)

/-- One step, of which alone the log tells afterwards. -/
def stepIn (m : Machine) : Machine × Option Fault := step { m with log := .empty }

/-! ## Around an instruction -/

@[simp] theorem stack_deliver (m : Machine) : m.deliver.stack = m.stack := rfl

@[simp] theorem pc_deliver (m : Machine) : m.deliver.pc = m.pc := rfl

@[simp] theorem fetch_deliver (m : Machine) : m.deliver.fetch = m.fetch := rfl

@[simp] theorem stack_begin (m : Machine) (i : Instruction) : (m.begin i).stack = m.stack := rfl

@[simp] theorem pc_begin (m : Machine) (i : Instruction) : (m.begin i).pc = m.pc + 2 := rfl

@[simp] theorem stack_conclude (m : Machine) (after : Core) :
    (m.conclude after).stack = after.stack := rfl

@[simp] theorem pc_conclude (m : Machine) (after : Core) : (m.conclude after).pc = after.pc := rfl

@[simp] theorem index_conclude (m : Machine) (after : Core) :
    (m.conclude after).index = after.index := rfl

/-! ## The three ways of a step -/

variable {m m' : Machine} {i : Instruction} {after : Core} {fault : Fault}

theorem step_of_fetch_error (hFetch : m.deliver.fetch = .error fault) :
    m.step = (m.deliver, some fault) := by
  simp only [step, hFetch]

theorem step_of_execute_error (hFetch : m.deliver.fetch = .ok i)
    (hFailed : i.execute.on (m.deliver.begin i).toCore = (.error fault, after)) :
    m.step =
      ((m.deliver.begin i).putBack m.deliver.pc m.deliver.opcode after, some fault) := by
  simp only [step, hFetch, hFailed]

theorem step_of_execute_ok (hFetch : m.deliver.fetch = .ok i)
    (hDone : i.execute.on (m.deliver.begin i).toCore = (.ok (), after)) :
    m.step = ((m.deliver.begin i).conclude after, none) := by
  simp only [step, hFetch, hDone]

/-- A step that succeeds is an instruction that was fetched and executed. -/
theorem exists_of_step_ok (hStep : m.step = (m', none)) :
    ∃ i after, m.deliver.fetch = .ok i ∧
      i.execute.on (m.deliver.begin i).toCore = (.ok (), after) ∧
      m' = (m.deliver.begin i).conclude after := by
  cases hFetch : m.deliver.fetch with
  | error fault => simp [step_of_fetch_error hFetch] at hStep
  | ok i =>
      rcases hExecute : i.execute.on (m.deliver.begin i).toCore with ⟨_ | _, after⟩
      · simp [step_of_execute_error hFetch hExecute] at hStep
      · rw [step_of_execute_ok hFetch hExecute] at hStep
        exact ⟨i, after, rfl, hExecute, (Prod.mk.inj hStep).1.symm⟩

/-- A step that succeeds executes the instruction that is fetched. -/
theorem exists_of_step_of_fetch (hFetch : m.deliver.fetch = .ok i) (hStep : m.step = (m', none)) :
    ∃ after, i.execute.on (m.deliver.begin i).toCore = (.ok (), after) ∧
      m' = (m.deliver.begin i).conclude after := by
  rcases exists_of_step_ok hStep with ⟨i', after, hFetch', hDone, hLeft⟩
  obtain rfl : i = i' := Except.ok.inj (hFetch.symm.trans hFetch')
  exact ⟨after, hDone, hLeft⟩

/-- A step that fails could not fetch its instruction, or the instruction failed. -/
theorem exists_of_step_fault (hStep : m.step = (m', some fault)) :
    (m.deliver.fetch = .error fault ∧ m' = m.deliver) ∨
      ∃ i after, m.deliver.fetch = .ok i ∧
        i.execute.on (m.deliver.begin i).toCore = (.error fault, after) ∧
        m' = (m.deliver.begin i).putBack m.deliver.pc m.deliver.opcode after := by
  cases hFetch : m.deliver.fetch with
  | error met =>
      rw [step_of_fetch_error hFetch] at hStep
      obtain ⟨rfl, hFault⟩ := Prod.mk.inj hStep
      exact .inl ⟨congrArg Except.error (Option.some.inj hFault), rfl⟩
  | ok i =>
      rcases hExecute : i.execute.on (m.deliver.begin i).toCore with ⟨met | _, after⟩
      · rw [step_of_execute_error hFetch hExecute] at hStep
        obtain ⟨rfl, hFault⟩ := Prod.mk.inj hStep
        rw [Option.some.inj hFault] at hExecute
        exact .inr ⟨i, after, rfl, hExecute, rfl⟩
      · simp [step_of_execute_ok hFetch hExecute] at hStep

/-- A step that succeeds is counted. -/
theorem executed_step (hStep : m.step = (m', none)) : m'.executed = m.executed + 1 := by
  obtain ⟨i, after, -, -, rfl⟩ := exists_of_step_ok hStep
  rfl

end Chip8.Machine

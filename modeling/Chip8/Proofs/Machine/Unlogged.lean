import Chip8.Proofs.Machine.Keeping
import Chip8.Proofs.Machine.Trace

/-!
# Execution does not look at the log

The log is written by instructions and read by the host alone. Two cores that differ in
their logs only therefore go on alike: a change gives the same result on both and leaves
cores that again differ in their logs only, and so do instructions, steps and
breakpoints.

What holds a machine up to its log is the state in which a run of it begins, `ready`:
there the log is empty, and the reason for which the run before stopped, at which no
step looks either, is forgotten.

## Main definitions

* `Core.unlogged` — a core without what its log has noted.
* `Change.Blind` — a change that does not look at the log.
* `Machine.singly?` — the state after a number of single steps.

## Main results

* `Instruction.blind_execute` — no instruction looks at the log.
* `step_ready` — nor does a step.
* `event_congr_ready` — nor do faults and breakpoints.
* `map_ready_singly?` — single steps go through the states of a run.
-/

namespace Chip8

/-- The core without what its log has noted. -/
def Core.unlogged (c : Core) : Core := { c with log := .empty }

namespace Change

variable {α β : Type}

/-- Cores that differ in their logs only give the same result, and differ in their logs
only afterwards. -/
def Blind (a : Change α) : Prop :=
  ∀ c d : Core, c.unlogged = d.unlogged →
    (a.on c).1 = (a.on d).1 ∧ (a.on c).2.unlogged = (a.on d).2.unlogged

/-- Changes one after the other are blind if each of them is. -/
theorem Blind.bind {a : Change α} {f : α → Change β} (hFirst : Blind a)
    (hNext : ∀ x, Blind (f x)) : Blind (a >>= f) := by
  intro c d hSame
  rcases hFirst c d hSame with ⟨hResult, hBetween⟩
  rcases hRun : a.on c with ⟨r, c'⟩
  rcases hRun' : a.on d with ⟨r', d'⟩
  rw [hRun, hRun'] at hResult hBetween
  subst hResult
  cases r with
  | ok x =>
      rw [on_bind_of_ok hRun, on_bind_of_ok hRun']
      exact hNext x c' d' hBetween
  | error met =>
      rw [on_bind_of_error hRun, on_bind_of_error hRun']
      exact ⟨rfl, hBetween⟩

/-- The core may be read where what follows takes nothing from its log. -/
theorem blind_get_bind {f : Core → Change α} (hUnseen : ∀ c, f c = f c.unlogged)
    (hNext : ∀ c, Blind (f c)) : Blind (get >>= f) := by
  intro c d hSame
  have hFollow : f c = f d := by rw [hUnseen c, hSame, ← hUnseen d]
  rw [on_bind_of_ok (on_get c), on_bind_of_ok (on_get d), hFollow]
  exact hNext d c d hSame

private theorem blind_pure (x : α) : Blind (pure x) := by
  intro c d hSame
  exact ⟨rfl, hSame⟩

private theorem blind_throw (fault : Fault) : Blind (throw fault : Change α) := by
  intro c d hSame
  exact ⟨rfl, hSame⟩

private theorem blind_modify {f : Core → Core}
    (hUnseen : ∀ c, (f c).unlogged = (f c.unlogged).unlogged) : Blind (modify f) := by
  intro c d hSame
  refine ⟨rfl, ?_⟩
  show (f c).unlogged = (f d).unlogged
  rw [hUnseen c, hSame, ← hUnseen d]

private theorem blind_modify_modify {f g : Core → Core}
    (hFirst : ∀ c, (f c).unlogged = (f c.unlogged).unlogged)
    (hNext : ∀ c, (g c).unlogged = (g c.unlogged).unlogged) :
    Blind (do modify f; modify g : Change Unit) :=
  (blind_modify hFirst).bind fun _ => blind_modify hNext

private theorem blind_keyIn (r : Register) : Blind (keyIn r) := by
  intro c d hSame
  have hRegisters : c.registers = d.registers := congrArg (·.registers) hSame
  rw [on_keyIn, on_keyIn, hRegisters]
  exact ⟨rfl, hSame⟩

/-- Reading a block adds to the log, whatever is in it. -/
theorem blind_readBlock (address : UInt16) (length : Nat) : Blind (readBlock address length) := by
  intro c d hSame
  have hBlock : c.memory.block address.toNat length = d.memory.block address.toNat length :=
    congrArg (·.memory.block address.toNat length) hSame
  rw [on_readBlock, on_readBlock, hBlock]
  cases d.memory.block address.toNat length with
  | ok bytes => exact ⟨rfl, hSame⟩
  | error met => exact ⟨rfl, hSame⟩

/-- Writing a block puts the same bytes into the same memory. -/
theorem blind_writeBlock (address : UInt16) (bytes : List UInt8) :
    Blind (writeBlock address bytes) := by
  intro c d hSame
  have hBlock : c.memory.block address.toNat bytes.length =
      d.memory.block address.toNat bytes.length :=
    congrArg (·.memory.block address.toNat bytes.length) hSame
  rw [on_writeBlock, on_writeBlock, hBlock]
  cases d.memory.block address.toNat bytes.length with
  | ok old =>
      have hWritten := congrArg (fun c : Core => { c with
        memory := ⟨Memory.splice address.toNat bytes c.memory.bytes⟩ }) hSame
      exact ⟨rfl, hWritten⟩
  | error met => exact ⟨rfl, hSame⟩

end Change

private theorem Core.unlogged_skipIf (c : Core) (condition : Bool) :
    (c.skipIf condition).unlogged = (c.unlogged.skipIf condition).unlogged := by
  cases condition with
  | false => rfl
  | true => rfl

open Change

/-- No instruction looks at the log. -/
theorem Instruction.blind_execute (i : Instruction) : Blind i.execute := by
  refine blind_get_bind (fun c => ?_) fun c => ?_
  · simp only [Core.unlogged]
    cases i.operation <;> rfl
  cases i.operation with
  | sys | waitKey => exact blind_pure ()
  | skipEqValue | skipNeValue | skipEqRegister | skipNeRegister =>
      exact blind_modify fun c => c.unlogged_skipIf _
  | jump | loadValue | addValue | copy | or | and | xor | loadIndex | jumpOffset | readDelay
  | setDelay | setSound | fontIndex => exact blind_modify fun _ => rfl
  | clearScreen | call | add | subtract | subtractFrom | shiftRight | shiftLeft | random
  | addIndex => exact blind_modify_modify (fun _ => rfl) fun _ => rfl
  | ret =>
      cases c.stack with
      | nil => exact blind_throw _
      | cons frame stack => exact blind_modify_modify (fun _ => rfl) fun _ => rfl
  | draw =>
      refine (blind_readBlock _ _).bind fun rows => ?_
      refine Blind.bind (blind_modify fun _ => rfl) fun _ => ?_
      exact blind_modify_modify (fun _ => rfl) fun _ => rfl
  | skipKey =>
      refine (blind_keyIn _).bind fun key => ?_
      by_cases hPressed : c.keypad.isPressed key
      · simp only [hPressed, ↓reduceIte]
        exact blind_modify_modify (fun _ => rfl) fun c => c.unlogged_skipIf true
      · simp only [hPressed, Bool.false_eq_true, ↓reduceIte]
        exact blind_pure ()
  | skipNotKey =>
      refine (blind_keyIn _).bind fun key => ?_
      by_cases hPressed : c.keypad.isPressed key
      · simp only [hPressed, ↓reduceIte]
        exact blind_modify fun _ => rfl
      · simp only [hPressed, Bool.false_eq_true, ↓reduceIte]
        exact blind_modify fun c => c.unlogged_skipIf true
  | decimalDigits => exact blind_writeBlock _ _
  | storeRegisters => exact (blind_writeBlock _ _).bind fun _ => blind_modify fun _ => rfl
  | loadRegisters => exact (blind_readBlock _ _).bind fun _ => blind_modify fun _ => rfl

/-- No breakpoint looks at the log. -/
theorem Breakpoint.check_unlogged (b : Breakpoint) (c : Core) : b.check c.unlogged = b.check c := by
  cases b with
  | pc | operation | register | index | memory | delay | key => rfl

namespace Machine

variable {m m' d : Machine} {n : Nat}

/-- Whether a breakpoint is met depends neither on the log nor on the reason for which
the run before stopped. -/
theorem atBreakpoint_ready (m : Machine) : m.ready.atBreakpoint = m.atBreakpoint := by
  show m.breakpoints.any (·.check m.toCore.unlogged) = m.breakpoints.any (·.check m.toCore)
  simp only [Breakpoint.check_unlogged]

/-- A step looks neither at the log nor at the reason for which the run before
stopped. -/
theorem step_ready (m : Machine) :
    m.ready.step.2 = m.step.2 ∧ m.ready.step.1.ready = m.step.1.ready := by
  have hFetch : m.ready.deliver.fetch = m.deliver.fetch := rfl
  cases hFetched : m.deliver.fetch with
  | error fault =>
      rw [step_of_fetch_error hFetched, step_of_fetch_error (hFetch.trans hFetched)]
      exact ⟨rfl, rfl⟩
  | ok i =>
      have hSame : (m.ready.deliver.begin i).toCore.unlogged =
          (m.deliver.begin i).toCore.unlogged := rfl
      rcases i.blind_execute _ _ hSame with ⟨hResult, hAfter⟩
      rcases hRun : i.execute.on (m.ready.deliver.begin i).toCore with ⟨r, after⟩
      rcases hRun' : i.execute.on (m.deliver.begin i).toCore with ⟨r', after'⟩
      rw [hRun, hRun'] at hResult hAfter
      obtain rfl : r = r' := hResult
      have hLeft : after.unlogged = after'.unlogged := hAfter
      cases r with
      | error fault =>
          rw [step_of_execute_error (hFetch.trans hFetched) hRun,
            step_of_execute_error hFetched hRun']
          have hBack := congrArg
            (fun c => ((m.deliver.begin i).putBack m.pc m.opcode c).ready) hLeft
          exact ⟨rfl, hBack⟩
      | ok _ =>
          rw [step_of_execute_ok (hFetch.trans hFetched) hRun, step_of_execute_ok hFetched hRun']
          have hDone := congrArg (fun c => ((m.deliver.begin i).conclude c).ready) hLeft
          exact ⟨rfl, hDone⟩

/-- Machines that a run would find alike take the same step. -/
theorem step_congr_ready (hAlike : m.ready = d.ready) :
    m.step.2 = d.step.2 ∧ m.step.1.ready = d.step.1.ready := by
  rcases step_ready m with ⟨hFault, hLeft⟩
  rcases step_ready d with ⟨hFault', hLeft'⟩
  rw [← hFault, ← hLeft, ← hFault', ← hLeft', hAlike]
  exact ⟨rfl, rfl⟩

/-- Machines that a run would find alike fail by the same faults and meet breakpoints at
the same steps. -/
theorem event_congr_ready (hAlike : m.ready = d.ready) :
    m.step.2 = d.step.2 ∧ m.step.1.atBreakpoint = d.step.1.atBreakpoint := by
  rcases step_congr_ready hAlike with ⟨hFault, hLeft⟩
  refine ⟨hFault, ?_⟩
  rw [← atBreakpoint_ready m.step.1, ← atBreakpoint_ready d.step.1, hLeft]

/-- Machines that a run would find alike go through states of which it would say the
same. -/
theorem map_ready_after?_congr (hAlike : m.ready = d.ready) (n : Nat) (course : Course) :
    (m.after? n course).map ready = (d.after? n course).map ready := by
  induction n generalizing m d course with
  | zero => exact congrArg some hAlike
  | succ n ih =>
      have hAlikeNow : (m.meanwhile (course 0)).ready = (d.meanwhile (course 0)).ready :=
        congrArg (·.meanwhile (course 0)) hAlike
      rcases step_congr_ready hAlikeNow with ⟨hFault, hLeft⟩
      rcases hStep : (m.meanwhile (course 0)).step with ⟨m', fault⟩
      rcases hStep' : (d.meanwhile (course 0)).step with ⟨d', fault'⟩
      rw [hStep, hStep'] at hFault hLeft
      subst hFault
      cases fault with
      | none =>
          rw [after?_succ_of_step hStep, after?_succ_of_step hStep']
          exact ih hLeft _
      | some fault => simp only [after?, hStep, hStep']

/-! ## Single steps -/

/-- The machine after `n` single steps, if none of them fails. -/
def singly? : Nat → Machine → Option Machine
  | 0, m => some m
  | n + 1, m =>
    match m.stepIn with
    | (m', none) => m'.singly? n
    | (_, some _) => none

/-- Single steps go through the states of a run, except that each of them clears the
log. -/
theorem map_ready_singly? (hAlike : m.ready = d.ready) (n : Nat) :
    (m.singly? n).map ready = (d.after? n).map ready := by
  induction n generalizing m d with
  | zero => exact congrArg some hAlike
  | succ n ih =>
      have hCleared : ({ m with log := .empty } : Machine).ready = d.ready := hAlike
      rcases step_congr_ready hCleared with ⟨hFault, hLeft⟩
      rcases hStep : m.stepIn with ⟨m', fault⟩
      rcases hStep' : d.step with ⟨d', fault'⟩
      rw [← stepIn, hStep, hStep'] at hFault hLeft
      subst hFault
      cases fault with
      | none =>
          rw [after?_succ_of_still_step hStep', singly?, hStep]
          exact ih hLeft
      | some fault => simp only [after?, singly?, meanwhile_still, hStep, hStep']

end Machine

end Chip8

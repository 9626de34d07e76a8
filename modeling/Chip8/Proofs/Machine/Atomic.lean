import Chip8.Machine.Step

/-!
# Steps that fail

An instruction may have changed the core when it fails, and what it changed is not
undone. All the same no step leaves the machine half way: in every instruction the
checks that can fail stand before the first change.

This order is kept track of by three properties of a change. One that *checks* leaves
the core alone, one that *succeeds* never fails, and one that is *atomic* leaves the
core alone if it fails. Checks may be put before an atomic change, and changes that
succeed behind it.

## Main definitions

* `Change.Checks`, `Change.Succeeds`, `Change.Atomic`.

## Main results

* `Checks.bind_atomic`, `Atomic.bind_succeeds` — how atomic changes are put together.
* `Instruction.atomic_execute` — every instruction is atomic.
* `Machine.eq_deliver_of_step_fault`, `Machine.stepIn_fault_unchanged` — a step that
  fails delivers the key events and does nothing else.
-/

namespace Chip8

namespace Change

variable {α β : Type}

/-- The core is left as it was, whether the change fails or not. -/
def Checks (a : Change α) : Prop := ∀ c, (a.on c).2 = c

/-- The change never fails. -/
def Succeeds (a : Change α) : Prop := ∀ c, ∃ x c', a.on c = (.ok x, c')

/-- The core is left as it was if the change fails. -/
def Atomic (a : Change α) : Prop := ∀ c fault c', a.on c = (.error fault, c') → c' = c

private theorem Checks.atomic {a : Change α} (hChecks : Checks a) : Atomic a := by
  intro c fault c' hFailed
  have hSame := hChecks c
  rw [hFailed] at hSame
  exact hSame

private theorem Succeeds.atomic {a : Change α} (hSucceeds : Succeeds a) : Atomic a := by
  intro c fault c' hFailed
  obtain ⟨x, c'', hDone⟩ := hSucceeds c
  rw [hDone] at hFailed
  exact absurd hFailed (by simp)

theorem Succeeds.bind {a : Change α} {f : α → Change β} (hFirst : Succeeds a)
    (hNext : ∀ x, Succeeds (f x)) : Succeeds (a >>= f) := by
  intro c
  obtain ⟨x, c', hDone⟩ := hFirst c
  rw [on_bind_of_ok hDone]
  exact hNext x c'

/-- Checks may be made before an atomic change. -/
theorem Checks.bind_atomic {a : Change α} {f : α → Change β} (hChecks : Checks a)
    (hNext : ∀ x, Atomic (f x)) : Atomic (a >>= f) := by
  intro c fault c' hFailed
  have hSame := hChecks c
  rcases hRun : a.on c with ⟨r, between⟩
  rw [hRun] at hSame
  subst hSame
  cases r with
  | ok x =>
      rw [on_bind_of_ok hRun] at hFailed
      exact hNext x between fault c' hFailed
  | error met =>
      rw [on_bind_of_error hRun] at hFailed
      exact (Prod.mk.inj hFailed).2.symm

/-- Changes that never fail may follow an atomic change. -/
theorem Atomic.bind_succeeds {a : Change α} {f : α → Change β} (hAtomic : Atomic a)
    (hNext : ∀ x, Succeeds (f x)) : Atomic (a >>= f) := by
  intro c fault c' hFailed
  rcases hRun : a.on c with ⟨r, between⟩
  cases r with
  | ok x =>
      rw [on_bind_of_ok hRun] at hFailed
      obtain ⟨y, last, hDone⟩ := hNext x between
      rw [hDone] at hFailed
      exact absurd hFailed (by simp)
  | error met =>
      rw [on_bind_of_error hRun] at hFailed
      obtain ⟨-, hLeft⟩ := Prod.mk.inj hFailed
      subst hLeft
      exact hAtomic c met between hRun

/-! ## The parts of instructions -/

theorem checks_get : Checks get := by
  intro c
  rfl

theorem succeeds_pure (x : α) : Succeeds (pure x) := by
  intro c
  exact ⟨x, c, rfl⟩

theorem succeeds_modify (f : Core → Core) : Succeeds (modify f) := by
  intro c
  exact ⟨(), f c, rfl⟩

theorem succeeds_modify_modify (f g : Core → Core) :
    Succeeds (do modify f; modify g : Change Unit) :=
  (succeeds_modify f).bind fun _ => succeeds_modify g

theorem checks_throw (fault : Fault) : Checks (throw fault : Change α) := by
  intro c
  rfl

theorem checks_keyIn (r : Register) : Checks (keyIn r) := by
  intro c
  rw [on_keyIn]

/-- A block is refused before its reading is noted. -/
theorem atomic_readBlock (address : UInt16) (length : Nat) :
    Atomic (readBlock address length) := by
  intro c fault c' hFailed
  rw [on_readBlock] at hFailed
  cases hRead : c.memory.block address.toNat length with
  | ok bytes =>
      rw [hRead] at hFailed
      exact absurd hFailed (by simp)
  | error met =>
      rw [hRead] at hFailed
      exact (Prod.mk.inj hFailed).2.symm

/-- A block is refused before its first byte is written. -/
theorem atomic_writeBlock (address : UInt16) (bytes : List UInt8) :
    Atomic (writeBlock address bytes) := by
  intro c fault c' hFailed
  rw [on_writeBlock] at hFailed
  cases hRead : c.memory.block address.toNat bytes.length with
  | ok old =>
      rw [hRead] at hFailed
      exact absurd hFailed (by simp)
  | error met =>
      rw [hRead] at hFailed
      exact (Prod.mk.inj hFailed).2.symm

end Change

open Change

/-- An instruction that fails leaves the core as it was. -/
theorem Instruction.atomic_execute (i : Instruction) : Atomic i.execute := by
  -- Reading the core is a check. The operations are then grouped by the number and the kind
  -- of the changes that they consist of.
  refine checks_get.bind_atomic fun c => ?_
  cases i.operation with
  | sys | waitKey => exact (succeeds_pure ()).atomic
  | jump | skipEqValue | skipNeValue | skipEqRegister | skipNeRegister | loadValue | addValue
  | copy | or | and | xor | loadIndex | jumpOffset | readDelay | setDelay | setSound
  | fontIndex => exact (succeeds_modify _).atomic
  | clearScreen | call | add | subtract | subtractFrom | shiftRight | shiftLeft | random
  | addIndex => exact (succeeds_modify_modify _ _).atomic
  | ret =>
      cases c.stack with
      | nil => exact (checks_throw _).atomic
      | cons frame stack => exact (succeeds_modify_modify _ _).atomic
  | draw =>
      refine (atomic_readBlock _ _).bind_succeeds fun rows => ?_
      exact (succeeds_modify _).bind fun _ => succeeds_modify_modify _ _
  | skipKey =>
      refine (checks_keyIn _).bind_atomic fun key => ?_
      by_cases hPressed : c.keypad.isPressed key
      · simp only [hPressed, ↓reduceIte]
        exact (succeeds_modify_modify _ _).atomic
      · simp only [hPressed, Bool.false_eq_true, ↓reduceIte]
        exact (succeeds_pure ()).atomic
  | skipNotKey =>
      refine (checks_keyIn _).bind_atomic fun key => ?_
      by_cases hPressed : c.keypad.isPressed key
      · simp only [hPressed, ↓reduceIte]
        exact (succeeds_modify _).atomic
      · simp only [hPressed, Bool.false_eq_true, ↓reduceIte]
        exact (succeeds_modify _).atomic
  | decimalDigits => exact atomic_writeBlock _ _
  | storeRegisters => exact (atomic_writeBlock _ _).bind_succeeds fun _ => succeeds_modify _
  | loadRegisters => exact (atomic_readBlock _ _).bind_succeeds fun _ => succeeds_modify _

namespace Machine

variable {m m' : Machine} {fault : Fault}

/-- Putting back what fetching changed undoes it. -/
theorem putBack_begin (m : Machine) (i : Instruction) :
    (m.begin i).putBack m.pc m.opcode (m.begin i).toCore = m := rfl

/-- A step that fails leaves the machine as the delivery of key events left it. -/
theorem eq_deliver_of_step_fault (hStep : m.step = (m', some fault)) : m' = m.deliver := by
  rcases exists_of_step_fault hStep with ⟨-, hLeft⟩ | ⟨i, after, -, hFailed, hLeft⟩
  · exact hLeft
  · -- Fetching moved the program counter on, so that the core the instruction leaves alone
    -- is not yet the one before the step.
    have hSame : after = (m.deliver.begin i).toCore :=
      i.atomic_execute (m.deliver.begin i).toCore fault after hFailed
    rw [hLeft, hSame, putBack_begin]

/-- A single step that fails delivers the key events in order and clears the log.
Memory, registers, `I`, program counter, stack, screen, timers, random numbers, the
latest word and everything else are as before. -/
theorem stepIn_fault_unchanged (hStep : m.stepIn = (m', some fault)) :
    m' = { m with
      keypad := m.pending.foldl Keypad.apply m.keypad
      pending := []
      log := .empty } :=
  eq_deliver_of_step_fault hStep

/-- A machine that is to store six registers three bytes before the end of memory, with
key events under way and a drawing in the log. -/
def storingPastTheEnd : Machine :=
  { Machine.start none 0 with
    memory := memoryOf [0xF5, 0x55]
    index := 0xFFD
    log := AccessLog.empty.noteDrawing
    pending := [.press 3, .press 7, .release 3] }

theorem stepIn_fault_unchanged_storing :
    storingPastTheEnd.stepIn.2 = some (.memoryOutOfBounds memorySize) ∧
      storingPastTheEnd.stepIn.1 = { storingPastTheEnd with
        keypad := [.press 3, .press 7, .release 3].foldl Keypad.apply .released
        pending := []
        log := .empty } := by
  have hFault : storingPastTheEnd.stepIn.2 = some (.memoryOutOfBounds memorySize) := by
    decide +kernel
  have hStep : storingPastTheEnd.stepIn =
      (storingPastTheEnd.stepIn.1, some (.memoryOutOfBounds memorySize)) := by
    rw [← hFault]
  exact ⟨hFault, stepIn_fault_unchanged hStep⟩

end Machine

end Chip8

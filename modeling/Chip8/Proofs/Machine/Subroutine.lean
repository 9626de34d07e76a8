import Chip8.Proofs.Machine.CallStack

/-!
# Stepping over calls and out of subroutines

Both are runs that are stopped by the depth of the call stack alone: neither the frames
on it nor the addresses in them are looked at. All the same they end at the return that
belongs to the call. The frames below stay untouched as long as the stack is deep enough
to hold them, so that the step which makes it too short takes off the very frame that
the call has put there.

Stepping over a call begins at the call, and its first step is what puts the frame
there; stepping out begins with the frame on top already. In both cases the first step
is taken unasked.

A subroutine may wait for a timer or for a key, so that it returns only because time
passes and key events are sent while it runs. Both results are therefore about any
course of the surroundings.

## Main results

* `stepOver_returns` — stepping over a call ends behind it, and stepping over anything
  else after one instruction.
* `stepOut_leaves` — stepping out leaves the innermost subroutine and no other.
-/

namespace Chip8.Machine

variable {m : Machine} {budget : Nat} {course : Course}

/-! ## Stepping over -/

/-- Stepping over takes a first step, and further ones for as long as the stack is
deeper than it was before the first. -/
theorem exists_first_of_stepOver (hPaused : (m.stepOver budget course).ending = .paused) :
    ∃ n first last pause, (m.ready.meanwhile (course 0)).step = (first, none) ∧
      first.after? n (course.drop 1) = some last ∧
      (m.stepOver budget course).machine = { last with pause } ∧
      (∀ k < n, ∀ now, first.after? k (course.drop 1) = some now →
        m.stack.length < now.stack.length) ∧
      ((m.stepOver budget course).machine.hitBreakpoint = false →
        pause = .tripwire ∧ last.stack.length ≤ m.stack.length) := by
  rcases exists_stopsAt_of_runWhile hPaused with ⟨n, last, pause, hStops, hLast⟩
  cases n with
  | zero =>
      -- The tripwire allows the first step, whatever the stack is.
      rcases hStops.stopped with ⟨-, hPos, -⟩ | ⟨-, -, hSprung⟩
      · exact absurd hPos (Nat.lt_irrefl 0)
      · exact absurd hSprung (by simp)
  | succ n =>
      rcases exists_step_of_after?_succ hStops.reached with ⟨first, hFirst, hRest⟩
      refine ⟨n, first, last, pause, hFirst, hRest, hLast, ?_, ?_⟩
      · intro k hk now hNow
        have hAllowed := hStops.allowed (k + 1) (Nat.succ_lt_succ hk) now
          ((after?_succ_of_step hFirst k).trans hNow)
        simpa using hAllowed
      · intro hNoHit
        have hRun : (m.stepOver budget course).machine = { last with pause } := hLast
        rw [hRun] at hNoHit
        obtain rfl := hStops.pause_eq_tripwire hNoHit
        have hSprung := hStops.sprung_last
        exact ⟨rfl, by simpa using hSprung⟩

/-- Stepping over a call ends with the return from it. -/
theorem exists_return_of_stepOver {i : Instruction} (hFetch : m.fetch = .ok i)
    (hCall : i.operation = .call) (hPaused : (m.stepOver budget course).ending = .paused)
    (hNoHit : (m.stepOver budget course).machine.hitBreakpoint = false) :
    ∃ n last, 2 ≤ n ∧ m.ready.after? n course = some last ∧
      (m.stepOver budget course).machine = { last with pause := .tripwire } ∧
      last.stack = m.stack ∧ last.pc = m.pc + 2 ∧
      ∀ k, 0 < k → k < n → ∃ now above, m.ready.after? k course = some now ∧
        above ≠ [] ∧ now.stack = above ++ m.stack := by
  rcases exists_first_of_stepOver hPaused with
    ⟨n, first, last, pause, hFirst, hRest, hLast, hDeep, hSprung⟩
  have hShift : ∀ k, m.ready.after? (k + 1) course = first.after? k (course.drop 1) :=
    after?_succ_of_step hFirst
  rcases hSprung hNoHit with ⟨rfl, hShort⟩
  have hFetchNow : (m.ready.meanwhile (course 0)).fetch = .ok i := hFetch
  have hCalled := stack_of_call_step hFetchNow hCall hFirst
  have hPushed : first.stack = ⟨m.pc, i.nnn, m.pc + 2⟩ :: m.stack := hCalled
  have hOpen : ⟨m.pc, i.nnn, m.pc + 2⟩ :: m.stack <:+ first.stack := ⟨[], hPushed.symm⟩
  have hReturned := returned_of_after? hOpen hRest hDeep hShort
  have hMore : n ≠ 0 := by
    rintro rfl
    obtain rfl : first = last := Option.some.inj hRest
    have hLength := congrArg List.length (hPushed.symm.trans hReturned.1)
    simp at hLength
  refine ⟨n + 1, last, by omega, (hShift n).trans hRest, hLast, hReturned.1, hReturned.2, ?_⟩
  intro k hPos hk
  cases k with
  | zero => exact absurd hPos (Nat.lt_irrefl 0)
  | succ k =>
      rcases exists_suffix_of_after? hOpen hRest hDeep (Nat.lt_of_succ_lt_succ hk) with
        ⟨now, hNow, above, hAbove⟩
      refine ⟨now, above ++ [⟨m.pc, i.nnn, m.pc + 2⟩], (hShift k).trans hNow, by simp, ?_⟩
      rw [← hAbove]
      simp

/-- Stepping over any other instruction takes one step: the stack is not deeper behind
it. -/
theorem exists_step_of_stepOver (hNoCall : ∀ i, m.fetch = .ok i → i.operation ≠ .call)
    (hPaused : (m.stepOver budget course).ending = .paused) :
    ∃ last, m.ready.after? 1 course = some last ∧
      (m.stepOver budget course).machine =
        { last with pause := (m.stepOver budget course).machine.pause } := by
  rcases exists_first_of_stepOver hPaused with
    ⟨n, first, last, pause, hFirst, hRest, hLast, hDeep, -⟩
  have hNoCallNow : ∀ i, (m.ready.meanwhile (course 0)).fetch = .ok i → i.operation ≠ .call :=
    hNoCall
  have hStepped := length_stack_le_of_step hNoCallNow hFirst
  have hNotDeep : first.stack.length ≤ m.stack.length := hStepped
  have hOnly : n = 0 := by
    rcases Nat.eq_zero_or_pos n with hOnly | hMore
    · exact hOnly
    · have hDeeper := hDeep 0 hMore first rfl
      omega
  subst hOnly
  rw [hLast]
  exact ⟨last, (after?_succ_of_step hFirst 0).trans hRest, rfl⟩

/-- Stepping over a call that comes to an end, but not at a breakpoint, executes at
least two instructions, and stands behind the call with the stack that there was. In
between, that stack was the bottom of a deeper one. Stepping over any other instruction
executes that alone. All this is so whatever happens around the machine. -/
theorem stepOver_returns (m : Machine) (budget : Nat) (course : Course)
    (hPaused : (m.stepOver budget course).ending = .paused) :
    (∀ i, m.fetch = .ok i → i.operation = .call →
      (m.stepOver budget course).machine.hitBreakpoint = false →
        ∃ n last, 2 ≤ n ∧ m.ready.after? n course = some last ∧
          (m.stepOver budget course).machine = { last with pause := .tripwire } ∧
          last.stack = m.stack ∧ last.pc = m.pc + 2 ∧
          ∀ k, 0 < k → k < n → ∃ now above, m.ready.after? k course = some now ∧
            above ≠ [] ∧ now.stack = above ++ m.stack) ∧
    ((∀ i, m.fetch = .ok i → i.operation ≠ .call) →
      ∃ last, m.ready.after? 1 course = some last ∧
        (m.stepOver budget course).machine =
          { last with pause := (m.stepOver budget course).machine.pause }) := by
  constructor
  · intro i hFetch hCall hNoHit
    exact exists_return_of_stepOver hFetch hCall hPaused hNoHit
  · intro hNoCall
    exact exists_step_of_stepOver hNoCall hPaused

/-- A machine inside a subroutine, at a call of another one. That one calls a third,
which waits until the delay timer has run down and then until a key is pressed. -/
def callingWaiting : Machine :=
  { Machine.start none 0 with
    memory := memoryOf
      [0x22, 0x04, 0x00, 0xEE, 0x22, 0x08, 0x00, 0xEE,
        0xF1, 0x07, 0x31, 0x00, 0x12, 0x08, 0xE0, 0x9E, 0x12, 0x0E, 0x00, 0xEE]
    timers := ⟨1, 0, true, 0⟩
    stack := [⟨0x300, 0x200, 0x302⟩] }

/-- Four milliseconds pass in front of each instruction, and in front of the ninth the
key is pressed. -/
def pressingLate : Course := fun count => ⟨4000000, if count = 8 then [.press 0] else []⟩

theorem stepOver_returns_waiting :
    (callingWaiting.stepOver 15 pressingLate).ending = .paused ∧
      (callingWaiting.stepOver 15 pressingLate).machine.hitBreakpoint = false ∧
      ∃ i, callingWaiting.fetch = .ok i ∧ i.operation = .call ∧
        ∃ n last, 2 ≤ n ∧ callingWaiting.ready.after? n pressingLate = some last ∧
          last.stack = [⟨0x300, 0x200, 0x302⟩] ∧ last.pc = 0x202 := by
  have hRun : (callingWaiting.stepOver 15 pressingLate).ending = .paused ∧
      (callingWaiting.stepOver 15 pressingLate).machine.hitBreakpoint = false := by
    decide +kernel
  rcases hRun with ⟨hPaused, hNoHit⟩
  have hFetch : callingWaiting.fetch = .ok ⟨⟨.call, .call, .value, none, 0x2000⟩, 0x2204⟩ := by
    have hPc : callingWaiting.pc.toNat = 0x200 := rfl
    have hWord : callingWaiting.memory.word? 0x200 = some 0x2204 := by decide +kernel
    have hCode : Instruction.decode? 0x2204 =
        some ⟨⟨.call, .call, .value, none, 0x2000⟩, 0x2204⟩ := by decide +kernel
    simp [Core.fetch, hPc, hWord, hCode, programStart]
  rcases (stepOver_returns callingWaiting 15 pressingLate hPaused).1 _ hFetch rfl hNoHit with
    ⟨n, last, hMore, hLast, -, hStack, hPc, -⟩
  exact ⟨hPaused, hNoHit, _, hFetch, rfl, n, last, hMore, hLast, hStack, hPc⟩

/-! ## Stepping out -/

/-- Stepping out of a subroutine ends with the return from it. -/
theorem exists_return_of_stepOut {frame : Frame} {rest : List Frame}
    (hStack : m.stack = frame :: rest) (hPaused : (m.stepOut budget course).ending = .paused)
    (hNoHit : (m.stepOut budget course).machine.hitBreakpoint = false) :
    ∃ n last, 1 ≤ n ∧ m.ready.after? n course = some last ∧
      (m.stepOut budget course).machine = { last with pause := .tripwire } ∧
      last.stack = rest ∧ last.pc = frame.returnAddress ∧
      ∀ k, 0 < k → k < n → ∃ now, m.ready.after? k course = some now ∧ m.stack <:+ now.stack := by
  have hRun : m.stepOut budget course = m.runWhile budget
      (fun count now => count = 0 || m.stack.length ≤ now.stack.length) course := by
    rw [stepOut, if_neg (by simp [hStack])]
  rw [hRun] at hPaused hNoHit ⊢
  rcases exists_stopsAt_of_runWhile hPaused with ⟨n, last, pause, hStops, hLast⟩
  rw [hLast] at hNoHit ⊢
  obtain rfl := hStops.pause_eq_tripwire hNoHit
  have hOpen : frame :: rest <:+ m.ready.stack := ⟨[], hStack.symm⟩
  have hDeep : ∀ k < n, ∀ now, m.ready.after? k course = some now →
      rest.length < now.stack.length := by
    intro k hk now hNow
    have hAllowed := hStops.allowed k hk now hNow
    simp only [hStack, List.length_cons, Bool.or_eq_true, decide_eq_true_eq] at hAllowed
    rcases hAllowed with rfl | hDeep
    · obtain rfl : m.ready = now := Option.some.inj hNow
      exact hOpen.length_le
    · exact hDeep
  have hSprung := hStops.sprung_last
  simp only [hStack, List.length_cons, Bool.or_eq_false_iff, decide_eq_false_iff_not]
    at hSprung
  have hReturned := returned_of_after? hOpen hStops.reached hDeep (by omega)
  refine ⟨n, last, by omega, hStops.reached, rfl, hReturned.1, hReturned.2, ?_⟩
  intro k hPos hk
  rw [hStack]
  exact exists_suffix_of_after? hOpen hStops.reached hDeep hk

/-- Stepping out that comes to an end, but not at a breakpoint, executes at least one
instruction, and stands where the innermost frame returns to with the other frames. In
between, all frames that were open stayed at the bottom of the stack, whatever happened
around the machine. With no frame to leave, nothing happens. -/
theorem stepOut_leaves (m : Machine) (budget : Nat) (course : Course) :
    (m.stack = [] → m.stepOut budget course = ⟨m, .paused⟩) ∧
    ∀ frame rest, m.stack = frame :: rest →
      (m.stepOut budget course).ending = .paused →
      (m.stepOut budget course).machine.hitBreakpoint = false →
        ∃ n last, 1 ≤ n ∧ m.ready.after? n course = some last ∧
          (m.stepOut budget course).machine = { last with pause := .tripwire } ∧
          last.stack = rest ∧ last.pc = frame.returnAddress ∧
          ∀ k, 0 < k → k < n → ∃ now, m.ready.after? k course = some now ∧
            m.stack <:+ now.stack := by
  constructor
  · intro hEmpty
    rw [stepOut, if_pos hEmpty]
  · intro frame rest hStack hPaused hNoHit
    exact exists_return_of_stepOut hStack hPaused hNoHit

theorem stepOut_leaves_waiting :
    (callingWaiting.stepOut 15 pressingLate).ending = .paused ∧
      (callingWaiting.stepOut 15 pressingLate).machine.hitBreakpoint = false ∧
      ∃ n last, 1 ≤ n ∧ callingWaiting.ready.after? n pressingLate = some last ∧
        last.stack = [] ∧ last.pc = 0x302 := by
  have hRun : (callingWaiting.stepOut 15 pressingLate).ending = .paused ∧
      (callingWaiting.stepOut 15 pressingLate).machine.hitBreakpoint = false := by
    decide +kernel
  rcases hRun with ⟨hPaused, hNoHit⟩
  rcases (stepOut_leaves callingWaiting 15 pressingLate).2 ⟨0x300, 0x200, 0x302⟩ [] rfl hPaused
    hNoHit with ⟨n, last, hMore, hLast, -, hStack, hPc, -⟩
  exact ⟨hPaused, hNoHit, n, last, hMore, hLast, hStack, hPc⟩

/-- If nothing happens around the machine, it waits on. -/
example : (callingWaiting.stepOut 9).ending = .unfinished := by decide +kernel

end Chip8.Machine

import Chip8.Proofs.Machine.Keeping
import Chip8.Proofs.Machine.Trace

/-!
# The call stack

A step moves the call stack in one of three ways: a call puts a frame on top, a return
takes the top frame off and goes on at its return address, and every other instruction
leaves the stack alone. Nothing else of an instruction matters here, so that what
follows holds of programs that change themselves as well.

Frames are taken off from the top only. The frames that are open at some time are
therefore the bottom of the stack for as long as it does not become shorter than it was
then, and when it does, the step that makes it so is the return from the topmost of
them.

## Main results

* `stack_of_step` — the three ways.
* `suffix_or_returned_of_step` — a step leaves open frames alone, or is the return from
  the topmost of them.
* `exists_suffix_of_after?`, `returned_of_after?` — what any number of steps leaves of
  open frames, and what it leaves when the stack becomes too short for them.
-/

namespace Chip8

/-! ## Calls and returns -/

namespace Instruction

variable {i : Instruction} {c after : Core}

/-- A call notes where it stands and where it returns to. -/
theorem on_execute_call (hCall : i.operation = .call) (c : Core) :
    i.execute.on c =
      (.ok (), { c with stack := ⟨c.pc - 2, i.nnn, c.pc⟩ :: c.stack, pc := i.nnn }) := by
  simp [execute, hCall, Change.on_bind]

/-- A return goes back to where the topmost frame says. -/
theorem exists_frame_of_execute_ret (hRet : i.operation = .ret)
    (hDone : i.execute.on c = (.ok (), after)) :
    ∃ frame, c.stack = frame :: after.stack ∧ after.pc = frame.returnAddress := by
  cases hStack : c.stack with
  | nil => simp [execute, hRet, hStack, Change.on_bind] at hDone
  | cons frame stack =>
      have hAfter : after = { c with stack, pc := frame.returnAddress } := by
        simpa [execute, hRet, hStack, Change.on_bind, eq_comm] using hDone
      rw [hAfter]
      exact ⟨frame, rfl, rfl⟩

end Instruction

namespace Machine

variable {m m' last : Machine} {n : Nat} {frame : Frame} {rest : List Frame}

/-- The three ways in which a step moves the call stack. -/
theorem stack_of_step (hStep : m.step = (m', none)) :
    ∃ i, m.fetch = .ok i ∧
      (i.operation = .call ∧ m'.stack = ⟨m.pc, i.nnn, m.pc + 2⟩ :: m.stack ∨
        i.operation = .ret ∧
          (∃ frame, m.stack = frame :: m'.stack ∧ m'.pc = frame.returnAddress) ∨
        i.operation ≠ .call ∧ m'.stack = m.stack) := by
  rcases exists_of_step_ok hStep with ⟨i, after, hFetch, hDone, rfl⟩
  refine ⟨i, hFetch, ?_⟩
  rw [stack_conclude, pc_conclude]
  by_cases hCall : i.operation = .call
  · rw [Instruction.on_execute_call hCall] at hDone
    have hCaller : m.pc + 2 - 2 = m.pc := UInt16.add_sub_cancel m.pc 2
    rw [← (Prod.mk.inj hDone).2]
    refine .inl ⟨hCall, ?_⟩
    simp only [stack_begin, pc_begin, stack_deliver, pc_deliver, hCaller]
  · by_cases hRet : i.operation = .ret
    · have hFrame := Instruction.exists_frame_of_execute_ret hRet hDone
      simp only [stack_begin, stack_deliver] at hFrame
      exact .inr (.inl ⟨hRet, hFrame⟩)
    · have hKept := Instruction.keeps_stack_execute hCall hRet (m.deliver.begin i).toCore
      simp only [hDone, stack_begin, stack_deliver] at hKept
      exact .inr (.inr ⟨hCall, hKept⟩)

/-- A call that is executed puts its own frame on the stack. -/
theorem stack_of_call_step {i : Instruction} (hFetch : m.fetch = .ok i)
    (hCall : i.operation = .call) (hStep : m.step = (m', none)) :
    m'.stack = ⟨m.pc, i.nnn, m.pc + 2⟩ :: m.stack := by
  rcases stack_of_step hStep with ⟨i', hFetch', hStack⟩
  obtain rfl : i = i' := Except.ok.inj (hFetch.symm.trans hFetch')
  rcases hStack with ⟨-, hPushed⟩ | ⟨hRet, -⟩ | ⟨hNoCall, -⟩
  · exact hPushed
  · exact absurd (hCall.symm.trans hRet) (by decide)
  · exact absurd hCall hNoCall

/-- A return that is executed takes the topmost frame off and goes back to where it
says. -/
theorem exists_frame_of_ret_step {i : Instruction} (hFetch : m.fetch = .ok i)
    (hRet : i.operation = .ret) (hStep : m.step = (m', none)) :
    ∃ frame, m.stack = frame :: m'.stack ∧ m'.pc = frame.returnAddress := by
  rcases exists_of_step_of_fetch hFetch hStep with ⟨after, hDone, rfl⟩
  have hFrame := Instruction.exists_frame_of_execute_ret hRet hDone
  simp only [stack_begin, stack_deliver] at hFrame
  rw [stack_conclude, pc_conclude]
  exact hFrame

/-- No other step makes the stack deeper. -/
theorem length_stack_le_of_step (hNoCall : ∀ i, m.fetch = .ok i → i.operation ≠ .call)
    (hStep : m.step = (m', none)) : m'.stack.length ≤ m.stack.length := by
  rcases stack_of_step hStep with
    ⟨i, hFetch, ⟨hCall, -⟩ | ⟨-, frame, hPopped, -⟩ | ⟨-, hKept⟩⟩
  · exact absurd hCall (hNoCall i hFetch)
  · rw [hPopped, List.length_cons]
    exact Nat.le_succ _
  · exact Nat.le_of_eq (congrArg List.length hKept)

/-- A step leaves open frames at the bottom of the stack, or it is the return from the
topmost of them. -/
theorem suffix_or_returned_of_step (hOpen : frame :: rest <:+ m.stack)
    (hStep : m.step = (m', none)) :
    frame :: rest <:+ m'.stack ∨ m'.stack = rest ∧ m'.pc = frame.returnAddress := by
  rcases stack_of_step hStep with ⟨i, -, ⟨-, hPushed⟩ | ⟨-, top, hTop, hBack⟩ | ⟨-, hKept⟩⟩
  · rw [hPushed]
    exact .inl (hOpen.trans (List.suffix_cons _ _))
  · rw [hTop] at hOpen
    rcases List.suffix_cons_iff.1 hOpen with hAll | hBelow
    · have hTopmost := List.cons.inj hAll
      rw [hTopmost.1, hTopmost.2]
      exact .inr ⟨rfl, hBack⟩
    · exact .inl hBelow
  · rw [hKept]
    exact .inl hOpen

variable {course : Course}

/-- As long as the stack is not too short to hold open frames, they are left alone, and
the step that makes it so is the return from the topmost of them. What happens around
the machine has no part in this. -/
theorem suffix_or_returned_of_after? (hOpen : frame :: rest <:+ m.stack)
    (hLast : m.after? n course = some last)
    (hDeep : ∀ k < n, ∀ now, m.after? k course = some now → rest.length < now.stack.length) :
    frame :: rest <:+ last.stack ∨ last.stack = rest ∧ last.pc = frame.returnAddress := by
  induction n generalizing m course with
  | zero =>
      obtain rfl : m = last := Option.some.inj hLast
      exact .inl hOpen
  | succ n ih =>
      rcases exists_step_of_after?_succ hLast with ⟨m', hStep, hRest⟩
      have hShift : ∀ k, m.after? (k + 1) course = m'.after? k (course.drop 1) :=
        after?_succ_of_step hStep
      have hOpenNow : frame :: rest <:+ (m.meanwhile (course 0)).stack := hOpen
      rcases suffix_or_returned_of_step hOpenNow hStep with hOpen' | hReturned
      · refine ih hOpen' hRest fun k hk now hNow => ?_
        exact hDeep (k + 1) (Nat.succ_lt_succ hk) now ((hShift k).trans hNow)
      · cases n with
        | zero =>
            obtain rfl : m' = last := Option.some.inj hRest
            exact .inr hReturned
        | succ n =>
            have hLong : rest.length < m'.stack.length :=
              hDeep 1 (Nat.succ_lt_succ n.succ_pos) m' (hShift 0)
            rw [hReturned.1] at hLong
            exact absurd hLong (Nat.lt_irrefl _)

/-- Open frames are at the bottom of every stack on the way, if none of them is too
short to hold them. -/
theorem exists_suffix_of_after? (hOpen : frame :: rest <:+ m.stack)
    (hLast : m.after? n course = some last)
    (hDeep : ∀ k < n, ∀ now, m.after? k course = some now → rest.length < now.stack.length)
    {k : Nat} (hk : k < n) :
    ∃ now, m.after? k course = some now ∧ frame :: rest <:+ now.stack := by
  rcases exists_after? hLast (Nat.le_of_lt hk) with ⟨now, hNow⟩
  have hLong := hDeep k hk now hNow
  have hEarlier : ∀ j < k, ∀ now, m.after? j course = some now →
      rest.length < now.stack.length :=
    fun j hj => hDeep j (Nat.lt_trans hj hk)
  rcases suffix_or_returned_of_after? hOpen hNow hEarlier with hOpen' | ⟨hReturned, -⟩
  · exact ⟨now, hNow, hOpen'⟩
  · rw [hReturned] at hLong
    exact absurd hLong (Nat.lt_irrefl _)

/-- A stack that is too short to hold open frames for the first time is what the return
from the topmost of them left. -/
theorem returned_of_after? (hOpen : frame :: rest <:+ m.stack)
    (hLast : m.after? n course = some last)
    (hDeep : ∀ k < n, ∀ now, m.after? k course = some now → rest.length < now.stack.length)
    (hShort : last.stack.length ≤ rest.length) :
    last.stack = rest ∧ last.pc = frame.returnAddress := by
  rcases suffix_or_returned_of_after? hOpen hLast hDeep with hOpen' | hReturned
  · have hLong := hOpen'.length_le
    rw [List.length_cons] at hLong
    omega
  · exact hReturned

end Machine

end Chip8

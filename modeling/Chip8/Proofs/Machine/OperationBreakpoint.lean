import Chip8.Proofs.Machine.Failing
import Chip8.Proofs.Machine.Host

/-!
# Breakpoints at an operation

A breakpoint at an operation is met if the word at the program counter is an instruction
of that operation. Fetching the instruction asks for more: the program counter has to be
even and not in front of the program. At another place the breakpoint can be met
although no instruction will be executed there. Nothing else comes between the two,
since past the end of the memory there is no word for either of them.

For a run this means that no instruction of the operation is executed behind its first
step, and that a stop at the breakpoint is in front of such an instruction, or in front
of a step that fails.

## Main definitions

* `Core.Misplaced` — where no instruction is executed whatever stands there.
* `Core.encoded?` — the instruction that the word at the program counter is.

## Main results

* `Core.fetch_eq_ok_iff` — an instruction is fetched if it stands at a place for
  instructions.
* `Breakpoint.check_operation_iff_encoded` — the breakpoint goes by the word alone.
* `Machine.operation_ne_of_stopsAt`, `Machine.fetch_of_stopsAt_breakpoint` — runs with
  such a breakpoint.
* `Breakpoint.check_operation_iff_fetch` — when the breakpoint is met, and what follows
  for runs.
* `Machine.exists_check_operation_without_fetch` — a program that meets it where nothing
  is fetched.
-/

namespace Chip8

namespace Core

variable {c : Core} {i : Instruction}

/-- The program counter is odd or in front of the program. -/
def Misplaced (pc : UInt16) : Prop := pc.toNat % 2 = 1 ∨ pc.toNat < programStart

instance (pc : UInt16) : Decidable (Misplaced pc) := inferInstanceAs (Decidable (_ ∨ _))

/-- The instruction that the word at the program counter is, if there is a word and it
is one. -/
def encoded? (c : Core) : Option Instruction :=
  (c.memory.word? c.pc.toNat).bind Instruction.decode?

/-- There is no place for instructions past the end of the memory either. -/
theorem offProgram_iff {pc : UInt16} :
    OffProgram pc ↔ Misplaced pc ∨ ¬ pc.toNat + 1 < memorySize := by
  simp only [OffProgram, Misplaced, programStart, memorySize]
  omega

private theorem fetch_of_misplaced (hMisplaced : Misplaced c.pc) :
    c.fetch = .error (.pcOutOfBounds c.pc) :=
  fetch_of_offProgram (offProgram_iff.2 (.inl hMisplaced))

/-- Past the end of the memory stands no instruction. -/
theorem lt_of_encoded? (hEncoded : c.encoded? = some i) : c.pc.toNat + 1 < memorySize := by
  rcases Option.bind_eq_some_iff.1 hEncoded with ⟨word, hWord, -⟩
  rw [← c.memory.word?_isSome, hWord]
  rfl

/-- An instruction is fetched if it stands at the program counter and this is not
misplaced. -/
theorem fetch_eq_ok_iff : c.fetch = .ok i ↔ ¬ Misplaced c.pc ∧ c.encoded? = some i := by
  constructor
  · intro hFetch
    rcases of_fetch hFetch with ⟨hOn, hWord, hCode⟩
    refine ⟨fun hMisplaced => hOn (offProgram_iff.2 (.inl hMisplaced)), ?_⟩
    rw [encoded?, hWord]
    exact hCode
  · rintro ⟨hPlaced, hEncoded⟩
    have hOn : ¬ OffProgram c.pc := fun hOff =>
      (offProgram_iff.1 hOff).elim hPlaced fun hPast => hPast (lt_of_encoded? hEncoded)
    rcases exists_fetch hOn with ⟨word, hWord, -, hDecoded⟩
    rw [encoded?, hWord] at hEncoded
    exact hDecoded i hEncoded

end Core

/-- A breakpoint at an operation goes by the word at the program counter alone. -/
theorem Breakpoint.check_operation_iff_encoded (c : Core) (o : Operation) :
    (Breakpoint.operation o).check c = true ↔ ∃ i, c.encoded? = some i ∧ i.operation = o := by
  unfold check Core.encoded?
  cases (c.memory.word? c.pc.toNat).bind Instruction.decode? with
  | none => simp
  | some i => simp

namespace Machine

variable {m last now : Machine} {tripwire : Nat → Machine → Bool} {course : Course} {n k : Nat}
  {pause : Pause} {i : Instruction} {o : Operation}

/-! ## Runs -/

/-- Behind its first step, a run executes no instruction of an operation that has a
breakpoint. -/
theorem operation_ne_of_stopsAt (hStops : StopsAt tripwire course m n last pause)
    (hWatched : .operation o ∈ m.breakpoints) (hBelow : k < n) (hPos : 0 < k)
    (hNow : m.after? k course = some now) (hFetch : now.fetch = .ok i) : i.operation ≠ o := by
  intro hOp
  have hClear : now.atBreakpoint = false := hStops.clear k hBelow hPos now hNow
  rw [← (around_after? hNow).1] at hWatched
  have hUnmet := List.any_eq_false.1 hClear _ hWatched
  exact hUnmet ((Breakpoint.check_operation_iff_encoded _ o).2
    ⟨i, (Core.fetch_eq_ok_iff.1 hFetch).2, hOp⟩)

/-- A run without breakpoints at anything but an operation stops at one in front of such
an instruction, or in front of a step that fails. -/
theorem fetch_of_stopsAt_breakpoint (hStops : StopsAt tripwire course m n last .breakpoint)
    (hOnly : ∀ b ∈ m.breakpoints, b = .operation o) :
    (∃ i, last.fetch = .ok i ∧ i.operation = o) ∨
      Core.Misplaced last.pc ∧ last.step.2 = some (.pcOutOfBounds last.pc) := by
  rcases hStops.stopped with ⟨-, -, hBreak⟩ | ⟨hPause, -, -⟩
  · rcases List.any_eq_true.1 hBreak with ⟨b, hMember, hMet⟩
    rw [(around_after? hStops.reached).1] at hMember
    obtain rfl := hOnly b hMember
    rcases (Breakpoint.check_operation_iff_encoded _ o).1 hMet with ⟨i, hEncoded, hOp⟩
    by_cases hMisplaced : Core.Misplaced last.pc
    · exact .inr ⟨hMisplaced, fault_step_of_fetch_error (Core.fetch_of_misplaced hMisplaced)⟩
    · exact .inl ⟨i, Core.fetch_eq_ok_iff.2 ⟨hMisplaced, hEncoded⟩, hOp⟩
  · exact absurd hPause (by decide)

end Machine

/-- A breakpoint at an operation is met if an instruction of that operation is fetched,
or if the program counter is misplaced and such an instruction stands there, which is
then not fetched. Otherwise the two agree, also past the end of the memory, where the
breakpoint is never met. A run that stops in an orderly way executes no instruction of
the operation behind its first step, and if it stops at this breakpoint, then in front
of such an instruction or of a step that fails. -/
theorem Breakpoint.check_operation_iff_fetch (c : Core) (o : Operation) :
    ((Breakpoint.operation o).check c = true ↔
      (∃ i, c.fetch = .ok i ∧ i.operation = o) ∨
        Core.Misplaced c.pc ∧ ∃ i, c.encoded? = some i ∧ i.operation = o) ∧
    (Core.Misplaced c.pc → c.fetch = .error (.pcOutOfBounds c.pc)) ∧
    (memorySize ≤ c.pc.toNat + 1 → (Breakpoint.operation o).check c = false) ∧
    ∀ (m : Machine) (tripwire : Nat → Machine → Bool) (budget : Nat) (course : Course),
      .operation o ∈ m.breakpoints → (m.runWhile budget tripwire course).ending = .paused →
      ∃ n last pause, m.ready.after? n course = some last ∧
        (m.runWhile budget tripwire course).machine = { last with pause } ∧
        (∀ k < n, 0 < k → ∀ now i, m.ready.after? k course = some now → now.fetch = .ok i →
          i.operation ≠ o) ∧
        ((∀ b ∈ m.breakpoints, b = .operation o) → pause = .breakpoint →
          (∃ i, last.fetch = .ok i ∧ i.operation = o) ∨
            Core.Misplaced last.pc ∧ last.step.2 = some (.pcOutOfBounds last.pc)) := by
  refine ⟨?_, Core.fetch_of_misplaced, fun hPast => ?_, ?_⟩
  · rw [check_operation_iff_encoded]
    constructor
    · rintro ⟨i, hEncoded, hOp⟩
      by_cases hMisplaced : Core.Misplaced c.pc
      · exact .inr ⟨hMisplaced, i, hEncoded, hOp⟩
      · exact .inl ⟨i, Core.fetch_eq_ok_iff.2 ⟨hMisplaced, hEncoded⟩, hOp⟩
    · rintro (⟨i, hFetch, hOp⟩ | ⟨-, hEncoded⟩)
      · exact ⟨i, (Core.fetch_eq_ok_iff.1 hFetch).2, hOp⟩
      · exact hEncoded
  · refine Bool.eq_false_iff.2 fun hMet => ?_
    rcases (check_operation_iff_encoded c o).1 hMet with ⟨i, hEncoded, -⟩
    exact absurd (Core.lt_of_encoded? hEncoded) (Nat.not_lt.2 hPast)
  · intro m tripwire budget course hWatched hPaused
    rcases Machine.exists_stopsAt_of_runWhile hPaused with ⟨n, last, pause, hStops, hLast⟩
    refine ⟨n, last, pause, hStops.reached, hLast, ?_, ?_⟩
    · intro k hBelow hPos now i hNow hFetch
      exact Machine.operation_ne_of_stopsAt hStops hWatched hBelow hPos hNow hFetch
    · rintro hOnly rfl
      exact Machine.fetch_of_stopsAt_breakpoint hStops hOnly

namespace Machine

/-- A machine with a program that jumps in front of itself, where the memory holds
zeros. -/
def jumpingLow : Machine :=
  { Machine.start none 0 with
    memory := memoryOf [0x11, 0x00]
    program := [0x11, 0x00]
    program_fits := by decide }

/-- Behind the jump, the machine is in front of the program and meets the breakpoint. -/
private theorem course_jumpingLow :
    jumpingLow.step.1.pc = 0x100 ∧
      (Breakpoint.operation .sys).check jumpingLow.step.1.toCore = true := by
  decide +kernel

/-- The same machine with a breakpoint at the operation that the zeros stand for. -/
def watchingLow : Machine := jumpingLow.addBreakpoint (.operation .sys)

/-- It meets the breakpoint behind the jump. -/
private theorem runWhile_watchingLow :
    watchingLow.runWhile 2 (fun _ _ => true) =
      ⟨{ watchingLow.ready.step.1 with pause := .breakpoint }, .paused⟩ := by
  have hCourse : watchingLow.ready.step.2 = none ∧
      watchingLow.ready.step.1.atBreakpoint = true := by decide +kernel
  have hStep : watchingLow.ready.step = (watchingLow.ready.step.1, none) := by rw [← hCourse.1]
  exact runLoop_of_breakpoint rfl hStep hCourse.2

end Machine

/-- A run stops at the breakpoint in front of the program, and the next step fails. -/
theorem Breakpoint.check_operation_iff_fetch_in_front :
    Machine.jumpingLow.step.1.fetch = .error (.pcOutOfBounds 0x100) ∧
      (Breakpoint.operation .sys).check { Machine.jumpingLow.toCore with pc := 0xFFF } = false ∧
      ∃ last : Machine,
        (Machine.watchingLow.runWhile 2 fun _ _ => true).machine =
          { last with pause := .breakpoint } ∧
        ((∃ i, last.fetch = .ok i ∧ i.operation = .sys) ∨
          Core.Misplaced last.pc ∧ last.step.2 = some (.pcOutOfBounds last.pc)) := by
  have hMisplaced : Core.Misplaced Machine.jumpingLow.step.1.pc := by
    rw [Machine.course_jumpingLow.1]
    decide
  rcases check_operation_iff_fetch Machine.jumpingLow.step.1.toCore .sys with ⟨-, hFetch, -, hRuns⟩
  rcases check_operation_iff_fetch { Machine.jumpingLow.toCore with pc := 0xFFF } .sys with
    ⟨-, -, hPast, -⟩
  have hPaused : (Machine.watchingLow.runWhile 2 fun _ _ => true).ending = .paused := by
    rw [Machine.runWhile_watchingLow]
  rcases hRuns Machine.watchingLow (fun _ _ => true) 2 .still (by decide) hPaused with
    ⟨n, last, pause, -, hLast, -, hStop⟩
  have hPause : pause = .breakpoint := by
    have hNoted := congrArg Machine.pause hLast
    rw [Machine.runWhile_watchingLow] at hNoted
    exact hNoted.symm
  refine ⟨?_, hPast (by decide), last, hPause ▸ hLast, hStop (by decide) hPause⟩
  rw [← Machine.course_jumpingLow.1]
  exact hFetch hMisplaced

/-- A program that was loaded jumps to a place where a breakpoint at an operation is met
and no instruction is fetched. -/
theorem Machine.exists_check_operation_without_fetch :
    (Machine.start none 0).load [0x11, 0x00] = .ok jumpingLow ∧
      ∃ last, Leads jumpingLow last ∧
        (Breakpoint.operation .sys).check last.toCore = true ∧
        last.fetch = .error (.pcOutOfBounds 0x100) := by
  have hFetch : jumpingLow.step.1.fetch = .error (.pcOutOfBounds jumpingLow.step.1.pc) := by
    refine Core.fetch_of_misplaced ?_
    rw [course_jumpingLow.1]
    decide
  refine ⟨load_start none 0 (by decide), _, (Leads.refl _).step, course_jumpingLow.2, ?_⟩
  rw [hFetch, course_jumpingLow.1]

end Chip8

import Chip8.Proofs.Machine.Host
import Chip8.Proofs.Machine.Limit

/-!
# Resets and new machines

A reset sets back every component of the machine on its own. All of them together have
then the values of a machine that is newly made, with the same seed and at the same
time, and that has loaded the same program. What outlives a reset are the breakpoints,
and key events that are under way: if there are none of these, the only difference can
be in the breakpoints.

Breakpoints are a set, and the row in which they are kept shows nowhere, neither in what
an action comes to nor in what it leaves. Nor does it show which random numbers would
come up without a seed, as long as one is set. Given the same breakpoints in any order,
a machine that was reset and a new one can therefore not be told apart by whatever a
host does to both of them.

## Main definitions

* `Machine.Alike` — machines that differ at most in the order of their breakpoints, and
  in random numbers that do not come up.
* `Action.OrderBlind` — an action that brings no tripwire which looks at these.
* `Action.row` — what comes of actions, one after the other.

## Main results

* `Machine.Alike.on`, `Machine.Alike.row` — actions do not tell machines apart that are
  alike.
* `Machine.load_reset` — a reset gives a new machine with the same program.
* `Machine.reset_indistinguishable` — resets, new machines, and programs that are
  loaded.
-/

namespace Chip8

namespace Machine

/-- The machines differ at most in the order of their breakpoints and, where a seed is
set, in the random numbers that would come up without one. -/
def Alike (m d : Machine) : Prop :=
  ∃ row entropy, (∀ b, b ∈ row ↔ b ∈ m.breakpoints) ∧
    (m.seed.isSome = true ∨ entropy = m.randomness.entropy) ∧
    d = { m with breakpoints := row, randomness := { m.randomness with entropy } }

end Machine

namespace Action

/-- A tripwire that the action brings with it gives the same answer for machines that
are alike, and does the same to them. -/
def OrderBlind (a : Action) : Prop :=
  ∀ tripwire, a.tripwire? = some tripwire → ∀ count m d, Machine.Alike m d →
    (tripwire count d).1 = (tripwire count m).1 ∧
      Machine.Alike (tripwire count m).2 (tripwire count d).2

/-- What comes of actions that are done one after the other: how each of them ends, and
the machine behind the last. -/
def row : List Action → Machine → List Ending × Machine
  | [], m => ([], m)
  | a :: as, m =>
    let (endings, last) := row as (a.on m).machine
    ((a.on m).ending :: endings, last)

end Action

namespace Machine

variable {m d : Machine}

private theorem step_aside (m : Machine) (row : List Breakpoint) (randomness : RandomSource) :
    ({ m with breakpoints := row, randomness } : Machine).step =
      ({ m.step.1 with breakpoints := row, randomness }, m.step.2) := by
  have hAround := step_around m row randomness 0
  simpa only [UInt64.add_zero] using hAround

/-- The generator of a seed does not depend on what would come up without one. -/
theorem generator_of_unseen {entropy : Generator}
    (hUnseen : m.seed.isSome = true ∨ entropy = m.randomness.entropy) :
    RandomSource.generator { m.randomness with entropy } m.seed =
      m.randomness.generator m.seed := by
  cases hSeed : m.seed with
  | some seed => rfl
  | none =>
      rw [hSeed] at hUnseen
      exact hUnseen.resolve_left (by decide)

namespace Alike

/-- Machines that are alike take the same step. -/
theorem step (hAlike : Alike m d) : d.step.2 = m.step.2 ∧ Alike m.step.1 d.step.1 := by
  rcases hAlike with ⟨row, entropy, hSame, hUnseen, rfl⟩
  rcases exists_step_eq m with ⟨core, opcode, executed, hLeft⟩
  rw [step_aside, hLeft]
  exact ⟨rfl, row, entropy, hSame, hUnseen, rfl⟩

theorem atBreakpoint (hAlike : Alike m d) : d.atBreakpoint = m.atBreakpoint := by
  rcases hAlike with ⟨row, entropy, hSame, -, rfl⟩
  exact atBreakpoint_congr rfl hSame

theorem note (hAlike : Alike m d) (log : AccessLog) (pause : Pause) :
    Alike { m with log, pause } { d with log, pause } := by
  rcases hAlike with ⟨row, entropy, hSame, hUnseen, rfl⟩
  exact ⟨row, entropy, hSame, hUnseen, rfl⟩

theorem clear (hAlike : Alike m d) : Alike { m with log := .empty } { d with log := .empty } := by
  rcases hAlike with ⟨row, entropy, hSame, hUnseen, rfl⟩
  exact ⟨row, entropy, hSame, hUnseen, rfl⟩

theorem pause (hAlike : Alike m d) (pause : Pause) :
    Alike { m with pause } { d with pause } := by
  rcases hAlike with ⟨row, entropy, hSame, hUnseen, rfl⟩
  exact ⟨row, entropy, hSame, hUnseen, rfl⟩

/-- The same happens around both. -/
theorem meanwhile (hAlike : Alike m d) (i : Interlude) :
    Alike (m.meanwhile i) (d.meanwhile i) := by
  rcases hAlike with ⟨row, entropy, hSame, hUnseen, rfl⟩
  exact ⟨row, entropy, hSame, hUnseen, rfl⟩

/-- A reset draws the same generator, from the seed or because the same comes up without
one. -/
theorem reset (hAlike : Alike m d) : Alike m.reset d.reset := by
  rcases hAlike with ⟨row, entropy, hSame, hUnseen, rfl⟩
  refine ⟨row, entropy, hSame, hUnseen, ?_⟩
  simp only [Machine.reset, generator_of_unseen hUnseen]

/-- What comes of two runs is the same, up to the order of the breakpoints. -/
def Runs (run run' : Run) : Prop := run'.ending = run.ending ∧ Alike run.machine run'.machine

private theorem sideBySide : SideBySide Alike where
  step := step
  atBreakpoint := atBreakpoint
  meanwhile := meanwhile
  pause := pause

/-- A tripwire that does not look at the order of the breakpoints lets machines that are
alike run alike. -/
theorem runWhileActing {tripwire : Nat → Machine → Bool × Machine}
    (hBlind : ∀ count m d, Alike m d → (tripwire count d).1 = (tripwire count m).1 ∧
      Alike (tripwire count m).2 (tripwire count d).2)
    (hAlike : Alike m d) (budget : Nat) (course : Course) :
    Runs (m.runWhileActing budget tripwire course) (d.runWhileActing budget tripwire course) :=
  sideBySide.runLoopActing hBlind (hAlike.note .empty .unsuccessful) budget 0 course

/-- A test that asks for nothing but the core and the counter is the same for machines
that are alike. -/
theorem runWhile {tripwire : Nat → Machine → Bool}
    (hBlind : ∀ count m d, Alike m d → tripwire count d = tripwire count m)
    (hAlike : Alike m d) (budget : Nat) (course : Course) :
    Runs (m.runWhile budget tripwire course) (d.runWhile budget tripwire course) := by
  rw [runWhile_eq_runWhileActing, runWhile_eq_runWhileActing]
  exact runWhileActing (fun count m d hBoth => ⟨hBlind count m d hBoth, hBoth⟩) hAlike budget course

private theorem stack_eq (hAlike : Alike m d) : d.stack = m.stack := by
  rcases hAlike with ⟨row, entropy, -, -, rfl⟩
  rfl

private theorem executed_eq (hAlike : Alike m d) : d.executed = m.executed := by
  rcases hAlike with ⟨row, entropy, -, -, rfl⟩
  rfl

theorem stepIn (hAlike : Alike m d) (budget : Nat) (course : Course) :
    Runs (Call.stepIn.on budget m course) (Call.stepIn.on budget d course) := by
  have hStepped := (hAlike.meanwhile (course 0)).clear.step
  rcases hStep : (m.meanwhile (course 0)).stepIn with ⟨m', fault⟩
  rcases hStep' : (d.meanwhile (course 0)).stepIn with ⟨d', fault'⟩
  rw [← Machine.stepIn, ← Machine.stepIn, hStep, hStep'] at hStepped
  rcases hStepped with ⟨hFault, hAlike'⟩
  obtain rfl : fault' = fault := hFault
  cases fault' with
  | none =>
      simp only [Call.on, hStep, hStep']
      exact ⟨rfl, hAlike'⟩
  | some fault =>
      simp only [Call.on, hStep, hStep']
      exact ⟨rfl, hAlike'⟩

/-- The machines have the same program once both are given one. -/
theorem withProgram (hAlike : Alike m d) {program : List UInt8}
    (hFits : program.length ≤ programCapacity) :
    Alike { m with program, program_fits := hFits } { d with program, program_fits := hFits } := by
  rcases hAlike with ⟨row, entropy, hSame, hUnseen, rfl⟩
  exact ⟨row, entropy, hSame, hUnseen, rfl⟩

theorem load (hAlike : Alike m d) (program : List UInt8) (budget : Nat) (course : Course) :
    Runs ((Call.load program).on budget m course) ((Call.load program).on budget d course) := by
  by_cases hFits : program.length ≤ programCapacity
  · rw [Call.on_load_of_fits hFits, Call.on_load_of_fits hFits]
    exact ⟨rfl, (hAlike.withProgram hFits).reset⟩
  · rw [Call.on_load_of_not_fits hFits, Call.on_load_of_not_fits hFits]
    exact ⟨rfl, hAlike⟩

/-- An action comes to the same for machines that are alike. -/
theorem on {a : Action} (hBlind : a.OrderBlind) (hAlike : Alike m d) :
    Runs (a.on m) (a.on d) := by
  cases a with
  | call c budget course =>
      cases c with
      | stepIn => exact hAlike.stepIn budget course
      | stepOver =>
          show Runs (m.stepOver budget course) (d.stepOver budget course)
          unfold Machine.stepOver
          rw [hAlike.stack_eq]
          exact hAlike.runWhile (fun _ _ _ hBoth => by rw [hBoth.stack_eq]) budget course
      | stepOut =>
          show Runs (m.stepOut budget course) (d.stepOut budget course)
          unfold Machine.stepOut
          rw [hAlike.stack_eq]
          by_cases hTop : m.stack = []
          · rw [if_pos hTop, if_pos hTop]
            exact ⟨rfl, hAlike⟩
          · rw [if_neg hTop, if_neg hTop]
            exact hAlike.runWhile (fun _ _ _ hBoth => by rw [hBoth.stack_eq]) budget course
      | runWhile tripwire => exact runWhileActing (hBlind tripwire.ask rfl) hAlike budget course
      | runWithLimit limit =>
          show Runs (m.runWithLimit limit course) (d.runWithLimit limit course)
          unfold Machine.runWithLimit
          rw [hAlike.executed_eq]
          exact hAlike.runWhile
            (fun _ _ _ hBoth => by simp only [withinLimit, hBoth.executed_eq]) _ course
      | reset => exact ⟨rfl, hAlike.reset⟩
      | load program => exact hAlike.load program budget course
  | run tripwire budget course => exact runWhileActing (hBlind tripwire rfl) hAlike budget course
  | send | operate | pass =>
      rcases hAlike with ⟨row, entropy, hSame, hUnseen, rfl⟩
      exact ⟨rfl, row, entropy, hSame, hUnseen, rfl⟩
  | renew entropy =>
      rcases hAlike with ⟨row, -, hSame, -, rfl⟩
      exact ⟨rfl, row, entropy, hSame, .inr rfl, rfl⟩

/-- Actions that are done one after the other come to the same for machines that are
alike. -/
theorem row {actions : List Action} (hBlind : ∀ a ∈ actions, a.OrderBlind)
    (hAlike : Alike m d) :
    (Action.row actions d).1 = (Action.row actions m).1 ∧
      Alike (Action.row actions m).2 (Action.row actions d).2 := by
  induction actions generalizing m d with
  | nil => exact ⟨rfl, hAlike⟩
  | cons a as ih =>
      rcases hAlike.on (hBlind a List.mem_cons_self) with ⟨hEnding, hBehind⟩
      rcases ih (fun b hMem => hBlind b (List.mem_cons_of_mem a hMem)) hBehind with
        ⟨hEndings, hLast⟩
      refine ⟨?_, hLast⟩
      show (a.on d).ending :: (Action.row as (a.on d).machine).1 =
        (a.on m).ending :: (Action.row as (a.on m).machine).1
      rw [hEnding, hEndings]

end Alike

/-! ## Resets -/

/-- A reset gives the machine that is newly made with the same seed and at the same
time, and that has loaded the same program, but for the breakpoints and the events under
way. Where a seed is set, it does not matter which random numbers would come up without
it. -/
theorem load_reset (m : Machine) {entropy : Generator}
    (hUnseen : m.seed.isSome = true ∨ entropy = m.randomness.entropy) :
    (Machine.start m.seed m.clock { m.randomness with entropy }).load m.program =
      .ok { m.reset with
        breakpoints := []
        pending := []
        randomness := { m.randomness with entropy } } := by
  refine load_eq_ok_iff.2 ⟨m.program_fits, ?_⟩
  simp only [reset, Memory.clear_eq_zero, Timers.restart_eq_start, ← generator_of_unseen hUnseen]
  rfl

/-- After a reset, and if no key events are under way, no component of the machine tells
it from one that is newly made with the same seed and at the same time, that has loaded
the same program, and that has the same breakpoints. Whatever the order of these is,
nothing that a host does to both machines tells them apart. If a seed is set, then all
this is so whichever random numbers would come up without it. To load a program is to
reset a machine that has this program, and a program that does not fit is refused
without any change. -/
theorem reset_indistinguishable (m : Machine) :
    (∀ entropy, (m.seed.isSome = true ∨ entropy = m.randomness.entropy) → m.pending = [] →
      ∃ fresh,
        (Machine.start m.seed m.clock { m.randomness with entropy }).load m.program = .ok fresh ∧
        m.reset = { fresh with breakpoints := m.breakpoints, randomness := m.randomness } ∧
        ∀ row, (∀ b, b ∈ row ↔ b ∈ m.breakpoints) →
          ∀ actions, (∀ a ∈ actions, Action.OrderBlind a) →
            (Action.row actions { fresh with breakpoints := row }).1 =
              (Action.row actions m.reset).1 ∧
            Alike (Action.row actions m.reset).2
              (Action.row actions { fresh with breakpoints := row }).2) ∧
    (∀ (program : List UInt8) (hFits : program.length ≤ 3584), m.load program =
      .ok (reset { m with program, program_fits := hFits })) ∧
    ∀ program budget, 3584 < program.length →
      (Call.load program).on budget m = ⟨m, .fault (.programTooLarge program.length)⟩ := by
  refine ⟨?_, fun program hFits => load_eq_ok_iff.2 ⟨hFits, rfl⟩, ?_⟩
  · intro entropy hUnseen hPending
    refine ⟨_, m.load_reset hUnseen, ?_, fun row hSame actions hBlind => ?_⟩
    · simp only [reset, hPending]
    · refine Alike.row hBlind ⟨row, entropy, hSame, hUnseen, ?_⟩
      simp only [reset, hPending]
  · intro program budget hLarge
    exact Call.on_load_of_not_fits (Nat.not_le.2 hLarge) budget m .still

/-- A machine of which nothing but the program is as it was in the beginning. -/
def wornOut : Machine :=
  { Machine.start (some 5) 40 with
    memory := memoryOf [0x12, 0x34]
    index := 0x300
    pc := 0x401
    stack := [⟨0x3FE, 0x400, 0x400⟩]
    timers := ⟨3, 200, false, 12⟩
    log := AccessLog.empty.noteDrawing
    opcode := 0x1234
    executed := 9
    pause := .breakpoint
    program := [0x00, 0xE0, 0x12, 0x00]
    breakpoints := [.pc 0x202, .key 3]
    program_fits := by decide }

/-- A generator that gives zeros. -/
def zeros : Generator := ⟨fun place => (0, place + 1), 0⟩

theorem reset_indistinguishable_worn_out :
    wornOut.seed.isSome = true ∧ wornOut.pending = [] ∧
    (∃ fresh,
      (Machine.start (some 5) 40 { wornOut.randomness with entropy := zeros }).load
        [0x00, 0xE0, 0x12, 0x00] = .ok fresh ∧
      wornOut.reset =
        { fresh with breakpoints := [.pc 0x202, .key 3], randomness := wornOut.randomness } ∧
      (Action.row [.send (.press 3), .call (.runWithLimit 4) 0]
          { fresh with breakpoints := [.key 3, .pc 0x202] }).1 =
        (Action.row [.send (.press 3), .call (.runWithLimit 4) 0] wornOut.reset).1) ∧
    (∃ m', wornOut.load (List.replicate 3584 0) = .ok m') ∧
    (Call.load (List.replicate 3585 0)).on 0 wornOut =
      ⟨wornOut, .fault (.programTooLarge 3585)⟩ := by
  rcases reset_indistinguishable wornOut with ⟨hReset, hLoad, hRefused⟩
  have hFits : (List.replicate 3584 (0 : UInt8)).length ≤ 3584 :=
    Nat.le_of_eq List.length_replicate
  have hLarge : 3584 < (List.replicate 3585 (0 : UInt8)).length := by
    rw [List.length_replicate]
    decide
  have hOrder : ∀ b, b ∈ [Breakpoint.key 3, .pc 0x202] ↔ b ∈ [Breakpoint.pc 0x202, .key 3] :=
    fun b => (List.Perm.swap _ _ []).mem_iff
  have hBlind : ∀ a ∈ [Action.send (.press 3), .call (.runWithLimit 4) 0], a.OrderBlind := by
    simp [Action.OrderBlind, Action.tripwire?]
  refine ⟨rfl, rfl, ?_, ⟨_, hLoad _ hFits⟩, ?_⟩
  · rcases hReset zeros (.inl rfl) rfl with ⟨fresh, hFresh, hSame, hAlike⟩
    exact ⟨fresh, hFresh, hSame, (hAlike _ hOrder _ hBlind).1⟩
  · rw [hRefused _ 0 hLarge, List.length_replicate]

end Machine

end Chip8

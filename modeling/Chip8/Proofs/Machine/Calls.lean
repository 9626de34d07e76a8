import Chip8.Proofs.Machine.Trace

/-!
# What a host learns about breakpoints

A host drives the machine by calls: single steps, runs of several kinds, resets and
programs to load. While a call lasts, time passes and key events are sent. After a call
it can ask whether the latest run stopped at a breakpoint. The answer is a piece of
state that runs set when they begin and when they end, and that a reset puts back.

A single step is not a run, and neither is stepping out where no call is open. Both
leave the answer as it is, so that it is then still that of an earlier call. The other
calls give the true answer, from whatever state they are made, and whatever the host
does in between.

## Main definitions

* `Tripwire`, `Call`, `Call.on` — what a host can call.
* `PausesAtBreakpoint`, `Call.Hits` — a call that stops because a breakpoint is met
  behind one of its steps, told without looking at the answer.
* `Call.Tells` — calls behind which the answer is about themselves.
* `Made`, `Calls` — a row of calls, between which the host may do something else.

## Main results

* `Call.hitBreakpoint_on` — the answer after one call.
* `Calls.hitBreakpoint_iff` — the answer after a row of calls.
* `hitBreakpoint_true_iff` — when the answer is true of the latest call.
-/

namespace Chip8

/-- A test that is made before every step of a run, and that may act on the machine. It
must not make a machine say that a run of it stopped at a breakpoint. -/
structure Tripwire where
  ask : Nat → Machine → Bool × Machine
  silent : ∀ count m, (ask count m).2.hitBreakpoint = true → m.hitBreakpoint = true

/-- The tripwire that tests and does not act. -/
def Tripwire.ofTest (test : Nat → Machine → Bool) : Tripwire where
  ask := fun count m => (test count m, m)
  silent := fun _ _ hHit => hHit

/-- What a host can call. -/
inductive Call where
  | stepIn
  | stepOver
  | stepOut
  | runWhile (tripwire : Tripwire)
  | runWithLimit (limit : UInt64)
  | reset
  | load (program : List UInt8)

/-- A run with a tripwire, behind `count` steps, stops because a breakpoint is met
behind one of its further steps. -/
inductive PausesAtBreakpoint (tripwire : Tripwire) (course : Course) : Nat → Machine → Prop where
  | here {count : Nat} {m asked m' : Machine} (hAsked : tripwire.ask count m = (true, asked))
      (hStep : (asked.meanwhile (course count)).step = (m', none))
      (hBreak : m'.atBreakpoint = true) : PausesAtBreakpoint tripwire course count m
  | later {count : Nat} {m asked m' : Machine} (hAsked : tripwire.ask count m = (true, asked))
      (hStep : (asked.meanwhile (course count)).step = (m', none))
      (hClear : m'.atBreakpoint = false)
      (hRest : PausesAtBreakpoint tripwire course (count + 1) m') :
      PausesAtBreakpoint tripwire course count m

namespace Call

variable {c : Call} {m : Machine} {budget : Nat} {tripwire : Tripwire} {course : Course}

/-- A call to a machine, while the surroundings take their course. Runs that need not
come to an end are given a budget. -/
def on (c : Call) (budget : Nat) (m : Machine) (course : Course := .still) : Run :=
  match c with
  | stepIn =>
    match (m.meanwhile (course 0)).stepIn with
    | (m, none) => ⟨m, .paused⟩
    | (m, some f) => ⟨m, .fault f⟩
  | stepOver => m.stepOver budget course
  | stepOut => m.stepOut budget course
  | runWhile tripwire => m.runWhileActing budget tripwire.ask course
  | runWithLimit limit => m.runWithLimit limit course
  | reset => ⟨m.reset, .paused⟩
  | load program =>
    match m.load program with
    | .ok m => ⟨m, .paused⟩
    | .error f => ⟨m, .fault f⟩

theorem machine_on_stepIn (budget : Nat) (m : Machine) (course : Course) :
    (stepIn.on budget m course).machine = (m.meanwhile (course 0)).stepIn.1 := by
  rcases hStep : (m.meanwhile (course 0)).stepIn with ⟨m', _ | fault⟩
  · simp only [on, hStep]
  · simp only [on, hStep]

theorem on_load_of_fits {program : List UInt8} (hFits : program.length ≤ programCapacity)
    (budget : Nat) (m : Machine) (course : Course) : (load program).on budget m course =
      ⟨Machine.reset { m with program, program_fits := hFits }, .paused⟩ := by
  have hLoad : m.load program =
      .ok (Machine.reset { m with program, program_fits := hFits }) := dif_pos hFits
  rw [on, hLoad]

/-- A program that does not fit is refused, and the machine stays as it is. -/
theorem on_load_of_not_fits {program : List UInt8} (hLarge : ¬ program.length ≤ programCapacity)
    (budget : Nat) (m : Machine) (course : Course) :
    (load program).on budget m course = ⟨m, .fault (.programTooLarge program.length)⟩ := by
  have hLoad : m.load program = .error (.programTooLarge program.length) := dif_neg hLarge
  rw [on, hLoad]

/-- The tripwire of the run that a call is, if it is one. -/
def tripwire? (c : Call) (m : Machine) : Option Tripwire :=
  match c with
  | stepOver => some (.ofTest fun count now => count = 0 || m.stack.length < now.stack.length)
  | stepOut =>
    if m.stack = [] then none
    else some (.ofTest fun count now => count = 0 || m.stack.length ≤ now.stack.length)
  | runWhile tripwire => some tripwire
  | runWithLimit limit => some (.ofTest fun _ now => now.withinLimit m.executed limit)
  | stepIn | reset | load _ => none

/-- The call is a run that stops because a breakpoint is met behind one of its steps. -/
def Hits (c : Call) (m : Machine) (course : Course := .still) : Prop :=
  ∃ tripwire, c.tripwire? m = some tripwire ∧ PausesAtBreakpoint tripwire course 0 m.ready

/-- The answer behind the call is about the call itself: it is a run, or it gives the
machine another beginning. -/
def Tells (c : Call) (m : Machine) : Prop :=
  match c with
  | stepIn => False
  | stepOut => m.stack ≠ []
  | load program => program.length ≤ programCapacity
  | stepOver | runWhile _ | runWithLimit _ | reset => True

/-! ## One call -/

section Round

variable {count : Nat} {asked m' : Machine}

private theorem not_pausesAtBreakpoint_of_sprung (hAsked : tripwire.ask count m = (false, asked)) :
    ¬ PausesAtBreakpoint tripwire course count m := by
  intro hPauses
  cases hPauses with
  | here hAsked' | later hAsked' => exact absurd (hAsked.symm.trans hAsked') (by simp)

private theorem not_pausesAtBreakpoint_of_fault {fault : Fault}
    (hAsked : tripwire.ask count m = (true, asked))
    (hStep : (asked.meanwhile (course count)).step = (m', some fault)) :
    ¬ PausesAtBreakpoint tripwire course count m := by
  intro hPauses
  cases hPauses with
  | here hAsked' hStep' | later hAsked' hStep' =>
      obtain rfl := (Prod.mk.inj (hAsked.symm.trans hAsked')).2
      exact absurd (hStep.symm.trans hStep') (by simp)

/-- A run that takes its next step meets a breakpoint behind it or later. -/
theorem pausesAtBreakpoint_iff (hAsked : tripwire.ask count m = (true, asked))
    (hStep : (asked.meanwhile (course count)).step = (m', none)) :
    PausesAtBreakpoint tripwire course count m ↔ m'.atBreakpoint = true ∨
      m'.atBreakpoint = false ∧ PausesAtBreakpoint tripwire course (count + 1) m' := by
  constructor
  · intro hPauses
    cases hPauses with
    | here hAsked' hStep' hBreak =>
        obtain rfl := (Prod.mk.inj (hAsked.symm.trans hAsked')).2
        obtain rfl := (Prod.mk.inj (hStep.symm.trans hStep')).1
        exact .inl hBreak
    | later hAsked' hStep' hClear hRest =>
        obtain rfl := (Prod.mk.inj (hAsked.symm.trans hAsked')).2
        obtain rfl := (Prod.mk.inj (hStep.symm.trans hStep')).1
        exact .inr ⟨hClear, hRest⟩
  · intro hBehind
    cases hBehind with
    | inl hBreak => exact .here hAsked hStep hBreak
    | inr hGoesOn => exact .later hAsked hStep hGoesOn.1 hGoesOn.2

end Round

private theorem hitBreakpoint_step (m : Machine) : m.step.1.hitBreakpoint = m.hitBreakpoint := by
  simp only [Machine.hitBreakpoint, (Machine.around_step m).2]

/-- The answer behind a run is that of the run, and it is no if the run fails. -/
theorem hitBreakpoint_runLoopActing {count : Nat} (hStart : m.hitBreakpoint = false)
    (hEnds : (Machine.runLoopActing tripwire.ask course budget count m).ending ≠ .unfinished) :
    ((Machine.runLoopActing tripwire.ask course budget count m).machine.hitBreakpoint = true ↔
      PausesAtBreakpoint tripwire course count m) ∧
    ∀ fault, (Machine.runLoopActing tripwire.ask course budget count m).ending = .fault fault →
      (Machine.runLoopActing tripwire.ask course budget count m).machine.hitBreakpoint = false := by
  induction budget generalizing count m with
  | zero => exact absurd rfl hEnds
  | succ budget ih =>
      rcases hAsked : tripwire.ask count m with ⟨_ | _, asked⟩
      · -- The tripwire ends the run.
        rw [Machine.runLoopActing_of_sprung hAsked]
        have hNoHit : ¬ PausesAtBreakpoint tripwire course count m :=
          not_pausesAtBreakpoint_of_sprung hAsked
        exact ⟨iff_of_false (by simp [Machine.hitBreakpoint]) hNoHit, by simp⟩
      · -- Neither the tripwire nor the step changes the answer.
        have hSilent : asked.hitBreakpoint = false := by
          have hAnswer := tripwire.silent count m
          rw [hAsked, hStart] at hAnswer
          simpa using hAnswer
        have hKept : (asked.meanwhile (course count)).step.1.hitBreakpoint = false :=
          (hitBreakpoint_step _).trans hSilent
        rcases hStep : (asked.meanwhile (course count)).step with ⟨m', _ | fault⟩
        · rw [hStep] at hKept
          rw [pausesAtBreakpoint_iff hAsked hStep]
          cases hBreak : m'.atBreakpoint with
          | true =>
              rw [Machine.runLoopActing_of_breakpoint hAsked hStep hBreak]
              exact ⟨iff_of_true rfl (.inl rfl), by simp⟩
          | false =>
              rw [Machine.runLoopActing_of_clear hAsked hStep hBreak] at hEnds ⊢
              have hRest := ih hKept hEnds
              simpa using hRest
        · rw [hStep] at hKept
          rw [Machine.runLoopActing_of_fault hAsked hStep]
          have hNoHit := not_pausesAtBreakpoint_of_fault hAsked hStep
          exact ⟨iff_of_false (by simp [hKept]) hNoHit, fun _ _ => hKept⟩

/-- A call that is a run takes its steps from where the machine is ready for it. -/
theorem exists_on_eq_runWhileActing (hRuns : c.tripwire? m = some tripwire) (budget : Nat)
    (course : Course) :
    ∃ enough, c.on budget m course = m.runWhileActing enough tripwire.ask course := by
  cases c with
  | stepIn | reset | load => exact absurd hRuns (by simp [tripwire?])
  | stepOver =>
      obtain rfl := Option.some.inj hRuns
      exact ⟨budget, Machine.runWhile_eq_runWhileActing budget _ m course⟩
  | stepOut =>
      by_cases hTop : m.stack = []
      · exact absurd hRuns (by simp [tripwire?, hTop])
      · have hTripwire : some _ = some tripwire := (if_neg hTop).symm.trans hRuns
        obtain rfl := Option.some.inj hTripwire
        refine ⟨budget, ?_⟩
        rw [on, Machine.stepOut, if_neg hTop]
        exact Machine.runWhile_eq_runWhileActing budget _ m course
  | runWhile =>
      obtain rfl := Option.some.inj hRuns
      exact ⟨budget, rfl⟩
  | runWithLimit limit =>
      obtain rfl := Option.some.inj hRuns
      exact ⟨limit.toNat + 1, Machine.runWhile_eq_runWhileActing _ _ m course⟩

/-- A call that is no run either leaves the answer as it is, or it gives the machine
another beginning. -/
theorem hitBreakpoint_on_of_no_run (hNoRun : c.tripwire? m = none) :
    (c.Tells m → (c.on budget m course).machine.hitBreakpoint = false ∧
      (c.on budget m course).ending = .paused) ∧
    (¬ c.Tells m → (c.on budget m course).machine.hitBreakpoint = m.hitBreakpoint) := by
  cases c with
  | stepOver | runWhile | runWithLimit => exact absurd hNoRun (by simp [tripwire?])
  | reset => exact ⟨fun _ => ⟨rfl, rfl⟩, fun hNot => absurd trivial hNot⟩
  | stepIn =>
      refine ⟨fun hTells => hTells.elim, fun _ => ?_⟩
      rw [machine_on_stepIn]
      exact hitBreakpoint_step { m.meanwhile (course 0) with log := .empty }
  | stepOut =>
      have hTop : m.stack = [] := by
        refine Classical.byContradiction fun hOpen => ?_
        exact absurd hNoRun (by simp [tripwire?, hOpen])
      refine ⟨fun hTells => absurd hTop hTells, fun _ => ?_⟩
      rw [on, Machine.stepOut, if_pos hTop]
  | load program =>
      by_cases hFits : program.length ≤ programCapacity
      · refine ⟨fun _ => ?_, fun hNot => absurd hFits hNot⟩
        rw [on_load_of_fits hFits]
        exact ⟨rfl, rfl⟩
      · refine ⟨fun hTells => absurd hTells hFits, fun _ => ?_⟩
        rw [on_load_of_not_fits hFits]

private theorem tells_of_run (hRuns : c.tripwire? m = some tripwire) : c.Tells m := by
  cases c with
  | stepIn | reset | load => exact absurd hRuns (by simp [tripwire?])
  | stepOver | runWhile | runWithLimit => trivial
  | stepOut =>
      intro hTop
      exact absurd hRuns (by simp [tripwire?, hTop])

/-- The answer behind a call. -/
theorem hitBreakpoint_on (hEnds : (c.on budget m course).ending ≠ .unfinished) :
    (c.Tells m → ((c.on budget m course).machine.hitBreakpoint = true ↔ c.Hits m course) ∧
      ∀ fault, (c.on budget m course).ending = .fault fault →
        (c.on budget m course).machine.hitBreakpoint = false) ∧
    (¬ c.Tells m → ¬ c.Hits m course ∧
      (c.on budget m course).machine.hitBreakpoint = m.hitBreakpoint) := by
  cases hRuns : c.tripwire? m with
  | none =>
      have hNoHit : ¬ c.Hits m course := by
        rintro ⟨tripwire, hSome, -⟩
        exact absurd (hRuns.symm.trans hSome) (by simp)
      rcases hitBreakpoint_on_of_no_run hRuns with ⟨hFresh, hKept⟩
      refine ⟨fun hTells => ?_, fun hNot => ⟨hNoHit, hKept hNot⟩⟩
      rw [(hFresh hTells).1]
      exact ⟨⟨fun hHit => absurd hHit (by decide), fun hHits => absurd hHits hNoHit⟩,
        fun _ _ => rfl⟩
  | some tripwire =>
      rcases exists_on_eq_runWhileActing hRuns budget course with ⟨enough, hRun⟩
      rw [hRun] at hEnds ⊢
      rcases hitBreakpoint_runLoopActing (m := m.ready) rfl hEnds with ⟨hAnswer, hFailed⟩
      have hHits : c.Hits m course ↔ PausesAtBreakpoint tripwire course 0 m.ready := by
        simp only [Hits, hRuns, Option.some.injEq, exists_eq_left']
      refine ⟨fun _ => ⟨hAnswer.trans hHits.symm, hFailed⟩, fun hNot => ?_⟩
      exact absurd (tells_of_run hRuns) hNot

end Call

/-! ## Rows of calls -/

/-- A call that was made, with the machine that it was made to and what happened around
that machine meanwhile. -/
structure Made where
  machine : Machine
  call : Call
  course : Course := .still

/-- Calls that were made one after the other, all of which have come to an end. In
between, the host may do to the machine what it likes: the answer alone is out of its
reach. -/
inductive Calls : Machine → List Made → Machine → Prop where
  | nil (m : Machine) : Calls m [] m
  | call {m last : Machine} {c : Call} {budget : Nat} {course : Course} {calls : List Made}
      (hEnds : (c.on budget m course).ending ≠ .unfinished)
      (hRest : Calls (c.on budget m course).machine calls last) :
      Calls m (⟨m, c, course⟩ :: calls) last
  | touch {m m' last : Machine} {calls : List Made} (hPause : m'.pause = m.pause)
      (hRest : Calls m' calls last) : Calls m calls last

/-- The answer behind none of the calls is about that call. -/
def NoneTells (calls : List Made) : Prop := ∀ made ∈ calls, ¬ made.call.Tells made.machine

/-- Of the calls behind which the answer is about the call, the latest is a run that
stops at a breakpoint. -/
def LatestHits : List Made → Prop
  | [] => False
  | made :: calls =>
    LatestHits calls ∨ NoneTells calls ∧ made.call.Tells made.machine ∧
      made.call.Hits made.machine made.course

/-- The answer behind a row of calls is that of the latest call of which it tells, and
if there is no such call, it is the answer from before. -/
theorem Calls.hitBreakpoint_iff {first last : Machine} {calls : List Made}
    (hCalls : Calls first calls last) :
    last.hitBreakpoint = true ↔
      LatestHits calls ∨ NoneTells calls ∧ first.hitBreakpoint = true := by
  induction hCalls with
  | nil m => simp [LatestHits, NoneTells]
  | touch hPause hRest ih =>
      rw [ih]
      simp only [Machine.hitBreakpoint, hPause]
  | @call m last c budget course calls hEnds hRest ih =>
      rcases c.hitBreakpoint_on hEnds with ⟨hTold, hKept⟩
      have hCons : NoneTells (⟨m, c, course⟩ :: calls) ↔ ¬ c.Tells m ∧ NoneTells calls := by
        simp [NoneTells]
      rw [ih, hCons, LatestHits]
      by_cases hTells : c.Tells m
      · rw [(hTold hTells).1]
        simp only [hTells, true_and, not_true_eq_false, false_and, or_false]
      · rw [(hKept hTells).2]
        simp only [hTells, false_and, and_false, or_false, not_false_eq_true, true_and]

/-- Behind a call, the answer is true of this call exactly if it tells of the call at
all, or if it was no before, that is, if the latest of the earlier calls of which it
tells is no run that stops at a breakpoint. A run that fails leaves a no, and so does
giving the machine another beginning. -/
theorem hitBreakpoint_true_iff {first m : Machine} {calls : List Made} {c : Call} {budget : Nat}
    {course : Course} (hCalls : Calls first calls m)
    (hEnds : (c.on budget m course).ending ≠ .unfinished) :
    (((c.on budget m course).machine.hitBreakpoint = true ↔ c.Hits m course) ↔
      c.Tells m ∨
        ¬ (LatestHits calls ∨ NoneTells calls ∧ first.hitBreakpoint = true)) ∧
    (c.Tells m → ∀ fault, (c.on budget m course).ending = .fault fault →
      (c.on budget m course).machine.hitBreakpoint = false) ∧
    (c.Tells m → c.tripwire? m = none →
      (c.on budget m course).machine.hitBreakpoint = false) := by
  rcases c.hitBreakpoint_on hEnds with ⟨hTold, hKept⟩
  refine ⟨?_, fun hTells => (hTold hTells).2, fun hTells hNoRun => ?_⟩
  · rw [← hCalls.hitBreakpoint_iff]
    by_cases hTells : c.Tells m
    · simp only [(hTold hTells).1, hTells, true_or]
    · rw [(hKept hTells).2]
      simp only [(hKept hTells).1, hTells, iff_false, false_or]
  · exact ((Call.hitBreakpoint_on_of_no_run hNoRun).1 hTells).1

/-- A machine that is to clear the screen three times, with a breakpoint at the second
time. -/
def clearingThrice : Machine :=
  { Machine.start none 0 with
    memory := Machine.memoryOf [0x00, 0xE0, 0x00, 0xE0, 0x00, 0xE0]
    breakpoints := [.pc 0x202] }

/-- The same machine behind a run, which has stopped at the breakpoint. -/
def stoppedAtBreakpoint : Machine := ((Call.runWithLimit 5).on 0 clearingThrice).machine

theorem hitBreakpoint_true_iff_again :
    Calls clearingThrice [{ machine := clearingThrice, call := .runWithLimit 5 }]
        stoppedAtBreakpoint ∧
      (Call.stepOver.on 3 stoppedAtBreakpoint).ending ≠ .unfinished ∧
      ((Call.stepOver.on 3 stoppedAtBreakpoint).machine.hitBreakpoint = true ↔
        Call.stepOver.Hits stoppedAtBreakpoint) := by
  have hRun : ((Call.runWithLimit 5).on 0 clearingThrice).ending ≠ .unfinished := by
    decide +kernel
  have hCalls : Calls clearingThrice [{ machine := clearingThrice, call := .runWithLimit 5 }]
      stoppedAtBreakpoint := .call hRun (.nil _)
  have hEnds : (Call.stepOver.on 3 stoppedAtBreakpoint).ending ≠ .unfinished := by
    decide +kernel
  exact ⟨hCalls, hEnds, (hitBreakpoint_true_iff hCalls hEnds).1.2 (.inl trivial)⟩

/-- A single step behind a run that stopped at a breakpoint comes to where no breakpoint
is met, but the answer is still yes. So it is behind stepping out where no call is
open. -/
theorem stale_hit_after_stepIn :
    ((Call.stepIn.on 0 stoppedAtBreakpoint).ending = .paused ∧
      (Call.stepIn.on 0 stoppedAtBreakpoint).machine.atBreakpoint = false ∧
      (Call.stepIn.on 0 stoppedAtBreakpoint).machine.hitBreakpoint = true ∧
      ¬ Call.stepIn.Hits stoppedAtBreakpoint) ∧
    (Call.stepOut.on 0 stoppedAtBreakpoint).ending = .paused ∧
      (Call.stepOut.on 0 stoppedAtBreakpoint).machine.hitBreakpoint = true ∧
      ¬ Call.stepOut.Hits stoppedAtBreakpoint := by
  have hStepped : (Call.stepIn.on 0 stoppedAtBreakpoint).ending = .paused ∧
      (Call.stepIn.on 0 stoppedAtBreakpoint).machine.atBreakpoint = false ∧
      (Call.stepIn.on 0 stoppedAtBreakpoint).machine.hitBreakpoint = true := by
    decide +kernel
  have hLeft : (Call.stepOut.on 0 stoppedAtBreakpoint).ending = .paused ∧
      (Call.stepOut.on 0 stoppedAtBreakpoint).machine.hitBreakpoint = true := by
    decide +kernel
  have hTop : stoppedAtBreakpoint.stack = [] := by decide +kernel
  have hNotIn : ¬ Call.stepIn.Tells stoppedAtBreakpoint := not_false
  have hNotOut : ¬ Call.stepOut.Tells stoppedAtBreakpoint := fun hOpen => hOpen hTop
  refine ⟨⟨hStepped.1, hStepped.2.1, hStepped.2.2, ?_⟩, hLeft.1, hLeft.2, ?_⟩
  · exact ((Call.hitBreakpoint_on (by rw [hStepped.1]; decide)).2 hNotIn).1
  · exact ((Call.hitBreakpoint_on (by rw [hLeft.1]; decide)).2 hNotOut).1

end Chip8

import Chip8.Machine.Step

/-!
# Runs

A run executes instructions until something stops it: a tripwire, which is asked before
every instruction; a fault; or a breakpoint, which is looked for after every
instruction. A tripwire knows the state and how many instructions the run has executed.

Meanwhile the surroundings of the machine take their course: in front of each
instruction, time may pass and key events may be sent. An instruction looks for key
events when it begins and at the clock when it is done, and nothing else does, so that
it is enough to let things happen there.

A run need not come to an end, so that it is given a budget of instructions. A budget
does not change a run that ends within it, and runs of a limited number of instructions
never use theirs up.

## Main definitions

* `Ending`, `Run` — how a run ended, and the state that it left.
* `Course`, `Course.still` — what happens around a machine during a run.
* `Machine.runLoop`, `Machine.runWhile` — runs with any tripwire.
* `Machine.runWithLimit`, `runUntil` — runs of a limited number of instructions.
* `Machine.stepOver`, `Machine.stepOut` — runs to the return from a call.
* `Machine.runWhileActing` — runs whose tripwire may act on the machine.

## Main results

* `runLoop_add_budget` — a larger budget does not change a run that came to its end.
* `runWithLimit_ending_ne_unfinished` — a run of limited length comes to its end.
* `runWhile_eq_runWhileActing` — a tripwire need not act.
-/

namespace Chip8

/-- How a run ended. -/
inductive Ending where
  /-- A tripwire or a breakpoint stopped it. -/
  | paused
  | fault (f : Fault)
  /-- The budget was used up. -/
  | unfinished
  deriving DecidableEq, Repr

/-- The state that a run left, and how it ended. -/
structure Run where
  machine : Machine
  ending : Ending

/-- What happens around a machine during a run, by the number of instructions that were
executed before. -/
abbrev Course := Nat → Interlude

/-- No time passes, and no key events are sent. -/
def Course.still : Course := fun _ => ⟨0, []⟩

namespace Machine

@[simp] theorem meanwhile_still (m : Machine) (count : Nat) :
    m.meanwhile (Course.still count) = m := rfl

@[simp] theorem executed_meanwhile (m : Machine) (i : Interlude) :
    (m.meanwhile i).executed = m.executed := rfl

@[simp] theorem stack_meanwhile (m : Machine) (i : Interlude) :
    (m.meanwhile i).stack = m.stack := rfl

@[simp] theorem fetch_meanwhile (m : Machine) (i : Interlude) :
    (m.meanwhile i).fetch = m.fetch := rfl

/-- Runs on after `count` instructions while `tripwire` allows it. -/
def runLoop (tripwire : Nat → Machine → Bool) (course : Course) : Nat → Nat → Machine → Run
  | 0, _, m => ⟨m, .unfinished⟩
  | budget + 1, count, m =>
    if tripwire count m then
      match (m.meanwhile (course count)).step with
      | (m, some f) => ⟨m, .fault f⟩
      | (m, none) =>
        if m.atBreakpoint then ⟨{ m with pause := .breakpoint }, .paused⟩
        else runLoop tripwire course budget (count + 1) m
    else ⟨{ m with pause := .tripwire }, .paused⟩

/-- Runs while `tripwire` allows it, of which alone the log tells afterwards. -/
def runWhile (budget : Nat) (tripwire : Nat → Machine → Bool) (m : Machine)
    (course : Course := .still) : Run :=
  runLoop tripwire course budget 0 { m with log := .empty, pause := .unsuccessful }

/-- Whether fewer than `limit` instructions were executed since the counter stood at
`before`. -/
def withinLimit (before limit : UInt64) (m : Machine) : Bool := m.executed - before < limit

/-- Runs for at most `limit` instructions. -/
def runWithLimit (limit : UInt64) (m : Machine) (course : Course := .still) : Run :=
  m.runWhile (limit.toNat + 1) (fun _ now => now.withinLimit m.executed limit) course

/-- Runs for at most `limit` instructions, or until one of the conditions holds. -/
def runUntil (conditions : List Breakpoint) (limit : UInt64) (m : Machine)
    (course : Course := .still) : Run :=
  m.runWhile (limit.toNat + 1)
    (fun _ now => !conditions.any (·.check now.toCore) && now.withinLimit m.executed limit) course

/-- Executes one instruction and, if it opens a call, everything up to the return from
it. -/
def stepOver (budget : Nat) (m : Machine) (course : Course := .still) : Run :=
  m.runWhile budget (fun count now => count = 0 || m.stack.length < now.stack.length) course

/-- Runs up to the return from the innermost open call, if there is one. -/
def stepOut (budget : Nat) (m : Machine) (course : Course := .still) : Run :=
  if m.stack = [] then ⟨m, .paused⟩
  else m.runWhile budget (fun count now => count = 0 || m.stack.length ≤ now.stack.length) course

/-! ## Tripwires that act -/

/-- Runs on after `count` instructions while `tripwire` allows it. Whenever it is asked,
the tripwire may do something to the machine as well. -/
def runLoopActing (tripwire : Nat → Machine → Bool × Machine) (course : Course) :
    Nat → Nat → Machine → Run
  | 0, _, m => ⟨m, .unfinished⟩
  | budget + 1, count, m =>
    match tripwire count m with
    | (false, m) => ⟨{ m with pause := .tripwire }, .paused⟩
    | (true, m) =>
      match (m.meanwhile (course count)).step with
      | (m, some f) => ⟨m, .fault f⟩
      | (m, none) =>
        if m.atBreakpoint then ⟨{ m with pause := .breakpoint }, .paused⟩
        else runLoopActing tripwire course budget (count + 1) m

/-- Runs while `tripwire` allows it, which may also act on the machine. -/
def runWhileActing (budget : Nat) (tripwire : Nat → Machine → Bool × Machine) (m : Machine)
    (course : Course := .still) : Run :=
  runLoopActing tripwire course budget 0 { m with log := .empty, pause := .unsuccessful }

theorem runLoop_eq_runLoopActing (tripwire : Nat → Machine → Bool) (course : Course)
    (budget count : Nat) (m : Machine) :
    runLoop tripwire course budget count m =
      runLoopActing (fun count m => (tripwire count m, m)) course budget count m := by
  induction budget generalizing count m with
  | zero => rfl
  | succ budget ih =>
    simp only [runLoop, runLoopActing]
    cases tripwire count m with
    | false => rfl
    | true =>
      simp only [↓reduceIte]
      split
      · rfl
      · split
        · rfl
        · exact ih _ _

/-- A run is one whose tripwire does nothing to the machine. -/
theorem runWhile_eq_runWhileActing (budget : Nat) (tripwire : Nat → Machine → Bool)
    (m : Machine) (course : Course) :
    m.runWhile budget tripwire course =
      m.runWhileActing budget (fun count m => (tripwire count m, m)) course :=
  runLoop_eq_runLoopActing tripwire course budget 0 _

/-! ## Budgets -/

variable {tripwire : Nat → Machine → Bool} {course : Course} {budget count : Nat} {m : Machine}

/-- A larger budget does not change a run that came to its end. -/
theorem runLoop_add_budget
    (hEnded : (runLoop tripwire course budget count m).ending ≠ .unfinished) (more : Nat) :
    runLoop tripwire course (budget + more) count m = runLoop tripwire course budget count m := by
  induction budget generalizing count m with
  | zero => exact absurd rfl hEnded
  | succ budget ih =>
    rw [Nat.succ_add]
    simp only [runLoop] at hEnded ⊢
    split
    · split
      · rfl
      · split
        · rfl
        · rename_i hAllowed _ m' hStep hClear
          simp only [hAllowed, ↓reduceIte, hStep, hClear] at hEnded
          exact ih hEnded
    · rfl

/-- A run comes to its end if the tripwire stops it, at the latest, when the budget is
used up. The tripwire may count the instructions by the counter of the machine. -/
theorem runLoop_ending_ne_unfinished (before limit : UInt64)
    (hStops : ∀ count m, ¬ m.withinLimit before limit → tripwire count m = false)
    (hCounted : m.executed - before = UInt64.ofNat count) (hInside : count ≤ limit.toNat)
    (hEnough : limit.toNat < budget + count) :
    (runLoop tripwire course budget count m).ending ≠ .unfinished := by
  induction budget generalizing count m with
  | zero => omega
  | succ budget ih =>
    simp only [runLoop]
    split
    · rename_i hAllowed
      split
      · simp
      · rename_i m' hStep
        split
        · simp
        · have hWithin : m.executed - before < limit := by
            by_cases hSoFar : m.withinLimit before limit
            · simpa [withinLimit] using hSoFar
            · simp [hStops count m hSoFar] at hAllowed
          have hSize := limit.toNat_lt
          have hBelow : count < limit.toNat := by
            rw [hCounted, UInt64.lt_iff_toNat_lt, UInt64.toNat_ofNat'] at hWithin
            omega
          refine ih ?_ hBelow (by omega)
          rw [executed_step hStep, executed_meanwhile, UInt64.ofNat_add, ← hCounted]
          grind
    · simp

/-- A run of limited length comes to its end. -/
theorem runWithLimit_ending_ne_unfinished (limit : UInt64) (m : Machine) (course : Course) :
    (m.runWithLimit limit course).ending ≠ .unfinished := by
  refine runLoop_ending_ne_unfinished m.executed limit ?_ ?_ (Nat.zero_le _) (by omega)
  · intro count now hPast
    simpa using hPast
  · simp

/-- A run of limited length with conditions comes to its end. -/
theorem runUntil_ending_ne_unfinished (conditions : List Breakpoint) (limit : UInt64)
    (m : Machine) (course : Course) :
    (m.runUntil conditions limit course).ending ≠ .unfinished := by
  refine runLoop_ending_ne_unfinished m.executed limit ?_ ?_ (Nat.zero_le _) (by omega)
  · intro count now hPast
    simp [hPast]
  · simp

end Machine

end Chip8

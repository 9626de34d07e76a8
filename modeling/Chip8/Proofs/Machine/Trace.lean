import Chip8.Machine.Run

/-!
# Runs as rows of steps

A run asks its tripwire, takes a step, looks for breakpoints, and so on. What it did
until it stopped is told by the states that it went through: the state after `n` steps,
for every `n` up to their number. All these steps succeeded, the tripwire allowed each
of them, and behind none of them but perhaps the last there was a breakpoint.

The states do not depend on what stops a run, so that runs with different tripwires go
through the same ones for as long as they go on. They do depend on the surroundings of
the machine, which take their course in front of every step.

## Main definitions

* `Machine.after?` — the state after a number of steps.
* `Course.drop` — what is left of a course behind a number of steps.
* `Machine.SideBySide` — machines between which a relation stays.
* `Machine.ready` — the state in which a run begins.
* `Machine.StopsAt` — a run of `n` steps that comes to an orderly stop.
* `Machine.EndsAt` — a run that ends in whatever way.

## Main results

* `exists_after?`, `after?_add` — the states on the way to a later one, and those behind
  it.
* `exists_step_eq` — what a step leaves alone around the core.
* `SideBySide.runLoopActing` — such machines run alike.
* `exists_stopsAt_of_runWhile`, `exists_endsAt_of_runWhile` — every run has such a row.
-/

namespace Chip8

/-- What happens around a machine behind the first `n` steps. -/
def Course.drop (n : Nat) (course : Course) : Course := fun count => course (n + count)

private theorem Course.drop_zero (course : Course) : course.drop 0 = course := by
  funext count
  exact congrArg course (Nat.zero_add count)

private theorem Course.drop_drop (n k : Nat) (course : Course) :
    (course.drop n).drop k = course.drop (n + k) := by
  funext count
  exact congrArg course (Nat.add_assoc n k count).symm

namespace Machine

/-- The machine after `n` steps, if none of them fails. The surroundings take their
course in front of each step. -/
def after? : Nat → Machine → (course : Course := .still) → Option Machine
  | 0, m, _ => some m
  | n + 1, m, course =>
    match (m.meanwhile (course 0)).step with
    | (m', none) => m'.after? n (course.drop 1)
    | (_, some _) => none

variable {m m' now last : Machine} {n : Nat} {course : Course}

theorem after?_succ_of_step (hStep : (m.meanwhile (course 0)).step = (m', none)) (n : Nat) :
    m.after? (n + 1) course = m'.after? n (course.drop 1) := by
  rw [after?, hStep]

/-- What comes after some steps comes after the first of them and then the others. -/
theorem exists_step_of_after?_succ (hLast : m.after? (n + 1) course = some last) :
    ∃ m', (m.meanwhile (course 0)).step = (m', none) ∧
      m'.after? n (course.drop 1) = some last := by
  rcases hStep : (m.meanwhile (course 0)).step with ⟨m', _ | fault⟩
  · rw [after?_succ_of_step hStep] at hLast
    exact ⟨m', rfl, hLast⟩
  · rw [after?, hStep] at hLast
    exact absurd hLast (by simp)

/-- There is a state after each smaller number of steps. -/
theorem exists_after? (hLast : m.after? n course = some last) {k : Nat} (hk : k ≤ n) :
    ∃ now, m.after? k course = some now := by
  induction n generalizing m k course with
  | zero =>
      obtain rfl : k = 0 := Nat.le_zero.1 hk
      exact ⟨m, rfl⟩
  | succ n ih =>
      cases k with
      | zero => exact ⟨m, rfl⟩
      | succ k =>
          rcases exists_step_of_after?_succ hLast with ⟨m', hStep, hRest⟩
          rw [after?_succ_of_step hStep]
          exact ih hRest (Nat.le_of_succ_le_succ hk)

/-- The states that come after `n` steps are those that come after the state reached by
then. -/
theorem after?_add (hFirst : m.after? n course = some now) (k : Nat) :
    m.after? (n + k) course = now.after? k (course.drop n) := by
  induction n generalizing m course with
  | zero =>
      obtain rfl : m = now := Option.some.inj hFirst
      rw [Nat.zero_add, Course.drop_zero]
  | succ n ih =>
      rcases exists_step_of_after?_succ hFirst with ⟨m', hStep, hRest⟩
      rw [Nat.succ_add, after?_succ_of_step hStep, ih hRest, Course.drop_drop, Nat.add_comm 1 n]

/-- One more step comes after the state that was reached. -/
theorem exists_step_of_after?_lt (hLast : m.after? n course = some last) {k : Nat} (hk : k < n)
    (hNow : m.after? k course = some now) :
    ∃ next, (now.meanwhile (course k)).step = (next, none) ∧
      m.after? (k + 1) course = some next := by
  rcases exists_after? hLast (Nat.succ_le_of_lt hk) with ⟨next, hNext⟩
  have hOne : now.after? 1 (course.drop k) = some next := (after?_add hNow 1).symm.trans hNext
  rcases exists_step_of_after?_succ hOne with ⟨reached, hStep, hReached⟩
  obtain rfl : reached = next := Option.some.inj hReached
  exact ⟨reached, hStep, hNext⟩

/-! ## Machines around which nothing happens -/

theorem after?_succ_of_still_step (hStep : m.step = (m', none)) (n : Nat) :
    m.after? (n + 1) = m'.after? n := by
  rw [after?, meanwhile_still, hStep]
  rfl

theorem after?_add_still (hFirst : m.after? n = some now) (k : Nat) :
    m.after? (n + k) = now.after? k :=
  after?_add hFirst k

/-! ## Around the core -/

/-- A step, also one that fails, changes nothing around the core but the word, the
counter and the events under way. -/
theorem exists_step_eq (m : Machine) :
    ∃ core opcode executed,
      m.step.1 = { m with toCore := core, opcode, executed, pending := [] } := by
  rcases hStep : m.step with ⟨m', _ | fault⟩
  · rcases exists_of_step_ok hStep with ⟨i, after, -, -, rfl⟩
    exact ⟨_, _, _, rfl⟩
  · rcases exists_of_step_fault hStep with ⟨-, rfl⟩ | ⟨i, after, -, -, rfl⟩
    · exact ⟨_, _, _, rfl⟩
    · exact ⟨_, _, _, rfl⟩

theorem around_step (m : Machine) :
    m.step.1.breakpoints = m.breakpoints ∧ m.step.1.pause = m.pause := by
  rcases exists_step_eq m with ⟨core, opcode, executed, hLeft⟩
  rw [hLeft]
  exact ⟨rfl, rfl⟩

theorem around_of_step (hStep : m.step = (m', none)) :
    m'.breakpoints = m.breakpoints ∧ m'.pause = m.pause := by
  have hAround := around_step m
  rw [hStep] at hAround
  exact hAround

theorem around_after? (hLast : m.after? n course = some last) :
    last.breakpoints = m.breakpoints ∧ last.pause = m.pause := by
  induction n generalizing m course with
  | zero =>
      obtain rfl : m = last := Option.some.inj hLast
      exact ⟨rfl, rfl⟩
  | succ n ih =>
      rcases exists_step_of_after?_succ hLast with ⟨m', hStep, hRest⟩
      rcases ih hRest with ⟨hBreakpoints, hPause⟩
      rcases around_of_step hStep with ⟨hBreakpoints', hPause'⟩
      exact ⟨hBreakpoints.trans hBreakpoints', hPause.trans hPause'⟩

/-! ## The rounds of a run -/

section Rounds

variable {tripwire : Nat → Machine → Bool} {budget count : Nat}

theorem runLoop_of_sprung (hSprung : tripwire count m = false) :
    runLoop tripwire course (budget + 1) count m = ⟨{ m with pause := .tripwire }, .paused⟩ := by
  simp only [runLoop, hSprung, Bool.false_eq_true, ↓reduceIte]

theorem runLoop_of_fault {fault : Fault} (hAllowed : tripwire count m = true)
    (hStep : (m.meanwhile (course count)).step = (m', some fault)) :
    runLoop tripwire course (budget + 1) count m = ⟨m', .fault fault⟩ := by
  simp only [runLoop, hAllowed, ↓reduceIte, hStep]

theorem runLoop_of_breakpoint (hAllowed : tripwire count m = true)
    (hStep : (m.meanwhile (course count)).step = (m', none)) (hBreak : m'.atBreakpoint = true) :
    runLoop tripwire course (budget + 1) count m =
      ⟨{ m' with pause := .breakpoint }, .paused⟩ := by
  simp only [runLoop, hAllowed, ↓reduceIte, hStep, hBreak]

theorem runLoop_of_clear (hAllowed : tripwire count m = true)
    (hStep : (m.meanwhile (course count)).step = (m', none)) (hClear : m'.atBreakpoint = false) :
    runLoop tripwire course (budget + 1) count m =
      runLoop tripwire course budget (count + 1) m' := by
  simp only [runLoop, hAllowed, ↓reduceIte, hStep, hClear, Bool.false_eq_true]

end Rounds

section ActingRounds

variable {tripwire : Nat → Machine → Bool × Machine} {budget count : Nat} {asked : Machine}

theorem runLoopActing_of_sprung (hAsked : tripwire count m = (false, asked)) :
    runLoopActing tripwire course (budget + 1) count m =
      ⟨{ asked with pause := .tripwire }, .paused⟩ := by
  simp only [runLoopActing, hAsked]

theorem runLoopActing_of_fault {fault : Fault} (hAsked : tripwire count m = (true, asked))
    (hStep : (asked.meanwhile (course count)).step = (m', some fault)) :
    runLoopActing tripwire course (budget + 1) count m = ⟨m', .fault fault⟩ := by
  simp only [runLoopActing, hAsked, hStep]

theorem runLoopActing_of_breakpoint (hAsked : tripwire count m = (true, asked))
    (hStep : (asked.meanwhile (course count)).step = (m', none))
    (hBreak : m'.atBreakpoint = true) :
    runLoopActing tripwire course (budget + 1) count m =
      ⟨{ m' with pause := .breakpoint }, .paused⟩ := by
  simp only [runLoopActing, hAsked, hStep, hBreak, ↓reduceIte]

theorem runLoopActing_of_clear (hAsked : tripwire count m = (true, asked))
    (hStep : (asked.meanwhile (course count)).step = (m', none))
    (hClear : m'.atBreakpoint = false) :
    runLoopActing tripwire course (budget + 1) count m =
      runLoopActing tripwire course budget (count + 1) m' := by
  simp only [runLoopActing, hAsked, hStep, hClear, Bool.false_eq_true, ↓reduceIte]

end ActingRounds

/-! ## Runs side by side -/

/-- Machines that are related step alike and stop alike, and stay related whatever
happens around both. -/
structure SideBySide (R : Machine → Machine → Prop) : Prop where
  step {m d : Machine} (hBoth : R m d) : d.step.2 = m.step.2 ∧ R m.step.1 d.step.1
  atBreakpoint {m d : Machine} (hBoth : R m d) : d.atBreakpoint = m.atBreakpoint
  meanwhile {m d : Machine} (hBoth : R m d) (i : Interlude) : R (m.meanwhile i) (d.meanwhile i)
  pause {m d : Machine} (hBoth : R m d) (pause : Pause) : R { m with pause } { d with pause }

namespace SideBySide

variable {R : Machine → Machine → Prop} {d : Machine}

/-- Machines that are related run alike, if the tripwire treats them alike. -/
theorem runLoopActing (hSide : SideBySide R) {tripwire : Nat → Machine → Bool × Machine}
    (hTripwire : ∀ count m d, R m d → (tripwire count d).1 = (tripwire count m).1 ∧
      R (tripwire count m).2 (tripwire count d).2)
    (hBoth : R m d) (budget count : Nat) (course : Course) :
    (Machine.runLoopActing tripwire course budget count d).ending =
        (Machine.runLoopActing tripwire course budget count m).ending ∧
      R (Machine.runLoopActing tripwire course budget count m).machine
        (Machine.runLoopActing tripwire course budget count d).machine := by
  induction budget generalizing count m d with
  | zero => exact ⟨rfl, hBoth⟩
  | succ budget ih =>
      rcases hTripwire count m d hBoth with ⟨hAnswer, hAsked⟩
      rcases hAsk : tripwire count m with ⟨allowed, asked⟩
      rcases hAsk' : tripwire count d with ⟨allowed', asked'⟩
      rw [hAsk, hAsk'] at hAnswer hAsked
      obtain rfl : allowed' = allowed := hAnswer
      cases allowed' with
      | false =>
          rw [runLoopActing_of_sprung hAsk, runLoopActing_of_sprung hAsk']
          exact ⟨rfl, hSide.pause hAsked .tripwire⟩
      | true =>
          have hStepped := hSide.step (hSide.meanwhile hAsked (course count))
          rcases hStep : (asked.meanwhile (course count)).step with ⟨m', fault⟩
          rcases hStep' : (asked'.meanwhile (course count)).step with ⟨d', fault'⟩
          rw [hStep, hStep'] at hStepped
          rcases hStepped with ⟨hFault, hBehind⟩
          obtain rfl : fault' = fault := hFault
          cases fault' with
          | some fault =>
              rw [runLoopActing_of_fault hAsk hStep, runLoopActing_of_fault hAsk' hStep']
              exact ⟨rfl, hBehind⟩
          | none =>
              have hMet := hSide.atBreakpoint hBehind
              cases hBreak : m'.atBreakpoint with
              | true =>
                  rw [runLoopActing_of_breakpoint hAsk hStep hBreak,
                    runLoopActing_of_breakpoint hAsk' hStep' (hMet.trans hBreak)]
                  exact ⟨rfl, hSide.pause hBehind .breakpoint⟩
              | false =>
                  rw [runLoopActing_of_clear hAsk hStep hBreak,
                    runLoopActing_of_clear hAsk' hStep' (hMet.trans hBreak)]
                  exact ih hBehind (count + 1)

theorem runLoop (hSide : SideBySide R) {tripwire : Nat → Machine → Bool}
    (hTripwire : ∀ count m d, R m d → tripwire count d = tripwire count m) (hBoth : R m d)
    (budget count : Nat) (course : Course) :
    (Machine.runLoop tripwire course budget count d).ending =
        (Machine.runLoop tripwire course budget count m).ending ∧
      R (Machine.runLoop tripwire course budget count m).machine
        (Machine.runLoop tripwire course budget count d).machine := by
  rw [runLoop_eq_runLoopActing, runLoop_eq_runLoopActing]
  exact hSide.runLoopActing (fun count m d hRelated => ⟨hTripwire count m d hRelated, hRelated⟩)
    hBoth budget count course

end SideBySide

/-! ## Runs -/

/-- The machine at the beginning of a run: nothing is noted, and no run has stopped. -/
def ready (m : Machine) : Machine := { m with log := .empty, pause := .unsuccessful }

private theorem runWhile_eq (budget : Nat) (tripwire : Nat → Machine → Bool) (m : Machine)
    (course : Course) :
    m.runWhile budget tripwire course = runLoop tripwire course budget 0 m.ready := rfl

/-- A run from `m` executes `n` instructions and then comes to an orderly stop at
`last`, for the reason `pause`. -/
structure StopsAt (tripwire : Nat → Machine → Bool) (course : Course) (m : Machine) (n : Nat)
    (last : Machine) (pause : Pause) : Prop where
  reached : m.after? n course = some last
  /-- The tripwire allowed every step. -/
  allowed : ∀ k < n, ∀ now, m.after? k course = some now → tripwire k now = true
  /-- There was no breakpoint on the way. -/
  clear : ∀ k < n, 0 < k → ∀ now, m.after? k course = some now → now.atBreakpoint = false
  stopped : pause = .breakpoint ∧ 0 < n ∧ last.atBreakpoint = true ∨
    pause = .tripwire ∧ (0 < n → last.atBreakpoint = false) ∧ tripwire n last = false

namespace StopsAt

variable {tripwire : Nat → Machine → Bool} {pause : Pause}

/-- A tripwire that is sprung at once stops the run before its first step. -/
theorem sprung (hSprung : tripwire 0 m = false) : StopsAt tripwire course m 0 m .tripwire where
  reached := rfl
  allowed := fun k hk => absurd hk (Nat.not_lt_zero k)
  clear := fun k hk => absurd hk (Nat.not_lt_zero k)
  stopped := .inr ⟨rfl, fun hPos => absurd hPos (Nat.lt_irrefl 0), hSprung⟩

/-- A breakpoint behind the first step stops the run there. -/
theorem breakpoint (hAllowed : tripwire 0 m = true)
    (hStep : (m.meanwhile (course 0)).step = (m', none)) (hBreak : m'.atBreakpoint = true) :
    StopsAt tripwire course m 1 m' .breakpoint where
  reached := after?_succ_of_step hStep 0
  allowed := by
    intro k hk now hNow
    obtain rfl : k = 0 := Nat.lt_one_iff.1 hk
    obtain rfl : m = now := Option.some.inj hNow
    exact hAllowed
  clear := fun k hk hPos => absurd hPos (Nat.not_lt.2 (Nat.le_of_lt_succ hk))
  stopped := .inl ⟨rfl, Nat.one_pos, hBreak⟩

/-- A run that goes on behind its first step stops where the run from there does, one
step later. -/
theorem cons (hAllowed : tripwire 0 m = true)
    (hStep : (m.meanwhile (course 0)).step = (m', none)) (hClear : m'.atBreakpoint = false)
    (hRest : StopsAt (fun k => tripwire (k + 1)) (course.drop 1) m' n last pause) :
    StopsAt tripwire course m (n + 1) last pause := by
  have hShift : ∀ k now, m.after? (k + 1) course = some now →
      m'.after? k (course.drop 1) = some now := by
    intro k now hNow
    rw [← after?_succ_of_step hStep]
    exact hNow
  refine ⟨?_, ?_, ?_, ?_⟩
  · rw [after?_succ_of_step hStep]
    exact hRest.reached
  · intro k hk now hNow
    cases k with
    | zero =>
        obtain rfl : m = now := Option.some.inj hNow
        exact hAllowed
    | succ k => exact hRest.allowed k (Nat.lt_of_succ_lt_succ hk) now (hShift k now hNow)
  · intro k hk hPos now hNow
    cases k with
    | zero => exact absurd hPos (Nat.lt_irrefl 0)
    | succ k =>
        cases k with
        | zero =>
            obtain rfl : m' = now := Option.some.inj (hShift 0 now hNow)
            exact hClear
        | succ k =>
            exact hRest.clear (k + 1) (Nat.lt_of_succ_lt_succ hk) (Nat.succ_pos k) now
              (hShift (k + 1) now hNow)
  · rcases hRest.stopped with ⟨hPause, hPos, hBreak⟩ | ⟨hPause, hNoBreak, hSprung⟩
    · exact .inl ⟨hPause, Nat.succ_pos n, hBreak⟩
    · refine .inr ⟨hPause, fun _ => ?_, hSprung⟩
      cases n with
      | zero =>
          obtain rfl : m' = last := Option.some.inj hRest.reached
          exact hClear
      | succ n => exact hNoBreak (Nat.succ_pos n)

/-- A run that stopped at no breakpoint was stopped by its tripwire. -/
theorem pause_eq_tripwire (hStops : StopsAt tripwire course m n last pause)
    (hNoHit : ({ last with pause } : Machine).hitBreakpoint = false) : pause = .tripwire := by
  rcases hStops.stopped with ⟨rfl, -, -⟩ | ⟨hPause, -, -⟩
  · exact absurd hNoHit (by simp [hitBreakpoint])
  · exact hPause

/-- The step at which the tripwire is sprung. -/
theorem sprung_last (hStops : StopsAt tripwire course m n last .tripwire) :
    tripwire n last = false := by
  rcases hStops.stopped with ⟨hPause, -, -⟩ | ⟨-, -, hSprung⟩
  · exact absurd hPause (by decide)
  · exact hSprung

end StopsAt

variable {tripwire : Nat → Machine → Bool} {budget count : Nat}

/-- A run that comes to an orderly stop went through a row of states. -/
theorem exists_stopsAt_of_runLoop
    (hPaused : (runLoop tripwire course budget count m).ending = .paused) :
    ∃ n last pause,
      StopsAt (fun k => tripwire (count + k)) (course.drop count) m n last pause ∧
      (runLoop tripwire course budget count m).machine = { last with pause } := by
  -- The steps that are counted already are kept apart from those of the row, which begins
  -- anew at every round.
  induction budget generalizing count m with
  | zero => simp [runLoop] at hPaused
  | succ budget ih =>
      cases hAllowed : tripwire count m with
      | false =>
          rw [runLoop_of_sprung hAllowed]
          exact ⟨0, m, .tripwire, .sprung hAllowed, rfl⟩
      | true =>
          rcases hStep : (m.meanwhile (course count)).step with ⟨m', _ | fault⟩
          · cases hBreak : m'.atBreakpoint with
            | true =>
                rw [runLoop_of_breakpoint hAllowed hStep hBreak]
                exact ⟨1, m', .breakpoint, .breakpoint hAllowed hStep hBreak, rfl⟩
            | false =>
                rw [runLoop_of_clear hAllowed hStep hBreak] at hPaused ⊢
                rcases ih hPaused with ⟨n, last, pause, hStops, hLast⟩
                have hShift : (fun k => tripwire (count + 1 + k)) =
                    fun k => tripwire (count + (k + 1)) := by
                  funext k
                  rw [Nat.add_right_comm, Nat.add_assoc]
                rw [hShift, ← Course.drop_drop] at hStops
                exact ⟨n + 1, last, pause, .cons hAllowed hStep hBreak hStops, hLast⟩
          · rw [runLoop_of_fault hAllowed hStep] at hPaused
            exact absurd hPaused (by simp)

theorem exists_stopsAt_of_runWhile
    (hPaused : (m.runWhile budget tripwire course).ending = .paused) :
    ∃ n last pause, StopsAt tripwire course m.ready n last pause ∧
      (m.runWhile budget tripwire course).machine = { last with pause } := by
  rw [runWhile_eq] at hPaused ⊢
  simpa only [Nat.zero_add, Course.drop_zero] using exists_stopsAt_of_runLoop hPaused

/-! ## Runs that end in any way -/

/-- A run leaves the state to which its steps have led: it notes why it stopped, or a
further step fails, or the budget is used up. -/
inductive EndsAt (last : Machine) : Run → Prop where
  | paused (pause : Pause) : EndsAt last ⟨{ last with pause }, .paused⟩
  | fault {m' : Machine} {fault : Fault} {i : Interlude}
      (hStep : (last.meanwhile i).step = (m', some fault)) : EndsAt last ⟨m', .fault fault⟩
  | unfinished : EndsAt last ⟨last, .unfinished⟩

/-- Every run goes through a row of states. -/
theorem exists_endsAt_of_runLoop (tripwire : Nat → Machine → Bool) (course : Course)
    (budget count : Nat) (m : Machine) :
    ∃ n last, m.after? n (course.drop count) = some last ∧
      EndsAt last (runLoop tripwire course budget count m) := by
  induction budget generalizing count m with
  | zero => exact ⟨0, m, rfl, .unfinished⟩
  | succ budget ih =>
      cases hAllowed : tripwire count m with
      | false =>
          rw [runLoop_of_sprung hAllowed]
          exact ⟨0, m, rfl, .paused _⟩
      | true =>
          rcases hStep : (m.meanwhile (course count)).step with ⟨m', _ | fault⟩
          · have hFirst : (m.meanwhile (course.drop count 0)).step = (m', none) := hStep
            have hShift : ∀ k, m.after? (k + 1) (course.drop count) =
                m'.after? k (course.drop (count + 1)) := by
              intro k
              rw [after?_succ_of_step hFirst, Course.drop_drop]
            cases hBreak : m'.atBreakpoint with
            | true =>
                rw [runLoop_of_breakpoint hAllowed hStep hBreak]
                exact ⟨1, m', hShift 0, .paused _⟩
            | false =>
                rw [runLoop_of_clear hAllowed hStep hBreak]
                rcases ih (count + 1) m' with ⟨n, last, hLast, hEnds⟩
                exact ⟨n + 1, last, (hShift n).trans hLast, hEnds⟩
          · rw [runLoop_of_fault hAllowed hStep]
            exact ⟨0, m, rfl, .fault hStep⟩

theorem exists_endsAt_of_runWhile (tripwire : Nat → Machine → Bool) (course : Course)
    (budget : Nat) (m : Machine) :
    ∃ n last, m.ready.after? n course = some last ∧
      EndsAt last (m.runWhile budget tripwire course) := by
  have hRow := exists_endsAt_of_runLoop tripwire course budget 0 m.ready
  rwa [Course.drop_zero] at hRow

/-- The counter of the machine counts the steps. -/
theorem executed_after? (hLast : m.after? n course = some last) :
    last.executed = m.executed + UInt64.ofNat n := by
  induction n generalizing m course with
  | zero =>
      obtain rfl : m = last := Option.some.inj hLast
      exact (UInt64.add_zero _).symm
  | succ n ih =>
      rcases exists_step_of_after?_succ hLast with ⟨m', hStep, hRest⟩
      rw [ih hRest, executed_step hStep, executed_meanwhile, UInt64.ofNat_add]
      grind

end Machine

end Chip8

import Chip8.Proofs.Machine.Unlogged

/-!
# Runs of a limited number of instructions

A limited run takes one step after the other and is cut short by the first event: a step
that fails, or a breakpoint behind a step. If there is no event up to the limit, it ends
there.

The run counts its instructions by the counter of the machine, which wraps at `2^64`.
All that it asks of the counter is how far it is from where it stood, and this distance
is the number of instructions for as long as the limit is not passed. Where the counter
begins has therefore no influence, and the same holds of the order in which breakpoints
are looked at, since it is only asked whether there is one.

## Main definitions

* `Machine.Uneventful` — the next step succeeds and ends at no breakpoint.
* `Machine.FirstEvent` — the first step that is not uneventful.
* `Machine.rearranged` — a machine with its breakpoints in another row and its counter
  moved on.

## Main results

* `runLoop_through` — a run goes through uneventful steps that its tripwire allows.
* `runWithLimit_eq_runLoop` — the counter of the machine counts the instructions.
* `runWithLimit_cut_at_first_event` — what a limited run does.
-/

namespace Chip8.Machine

variable {m m' s last : Machine} {n : Nat}

/-! ## Events -/

/-- The next step succeeds, and there is no breakpoint behind it. -/
def Uneventful (m : Machine) : Prop := ∃ m', m.step = (m', none) ∧ m'.atBreakpoint = false

/-- The step that comes after `n` others, and that begins in the state `s`, is the first
one that fails or has a breakpoint behind it. -/
structure FirstEvent (m : Machine) (n : Nat) (s : Machine) : Prop where
  reached : m.after? n = some s
  quiet : ∀ k < n, ∀ now, m.after? k = some now → now.Uneventful
  event : ¬ s.Uneventful

/-- What happens at an event. -/
theorem cases_of_not_uneventful (hEvent : ¬ m.Uneventful) :
    (∃ m' fault, m.step = (m', some fault)) ∨
      ∃ m', m.step = (m', none) ∧ m'.atBreakpoint = true := by
  rcases hStep : m.step with ⟨m', _ | fault⟩
  · cases hBreak : m'.atBreakpoint with
    | true => exact .inr ⟨m', rfl, hBreak⟩
    | false => exact absurd ⟨m', hStep, hBreak⟩ hEvent
  · exact .inl ⟨m', fault, rfl⟩

/-- Uneventful steps can be taken one after the other. -/
theorem exists_after?_of_uneventful
    (hQuiet : ∀ k < n, ∀ now, m.after? k = some now → now.Uneventful) :
    ∃ s, m.after? n = some s := by
  induction n generalizing m with
  | zero => exact ⟨m, rfl⟩
  | succ n ih =>
      rcases hQuiet 0 (Nat.succ_pos n) m rfl with ⟨m', hStep, -⟩
      rw [after?_succ_of_still_step hStep]
      refine ih fun k hk now hNow => hQuiet (k + 1) (Nat.succ_lt_succ hk) now ?_
      rw [after?_succ_of_still_step hStep]
      exact hNow

/-! ## Runs up to an event -/

/-- A run goes through uneventful steps that its tripwire allows. -/
theorem runLoop_through {tripwire : Nat → Machine → Bool} {budget count : Nat}
    (hReached : m.after? n = some s)
    (hQuiet : ∀ k < n, ∀ now, m.after? k = some now → now.Uneventful)
    (hAllowed : ∀ k < n, ∀ now, m.after? k = some now → tripwire (count + k) now = true) :
    runLoop tripwire .still (budget + n) count m =
      runLoop tripwire .still budget (count + n) s := by
  induction n generalizing m count with
  | zero =>
      obtain rfl : m = s := Option.some.inj hReached
      rfl
  | succ n ih =>
      rcases hQuiet 0 n.succ_pos m rfl with ⟨m', hStep, hClear⟩
      have hShift : ∀ k, m.after? (k + 1) = m'.after? k := after?_succ_of_still_step hStep
      have hFirst : tripwire count m = true := hAllowed 0 n.succ_pos m rfl
      have hRest : runLoop tripwire .still (budget + n) (count + 1) m' =
          runLoop tripwire .still budget (count + 1 + n) s := by
        refine ih ((hShift n).symm.trans hReached) ?_ ?_
        · intro k hk now hNow
          exact hQuiet (k + 1) (Nat.succ_lt_succ hk) now ((hShift k).trans hNow)
        · intro k hk now hNow
          rw [Nat.add_assoc, Nat.add_comm 1 k]
          exact hAllowed (k + 1) (Nat.succ_lt_succ hk) now ((hShift k).trans hNow)
      have hRound : runLoop tripwire .still (budget + n + 1) count m =
          runLoop tripwire .still (budget + n) (count + 1) m' :=
        runLoop_of_clear hFirst hStep hClear
      rw [← Nat.add_assoc, hRound, hRest, Nat.add_assoc, Nat.add_comm 1 n]

/-- The tripwire that stops a run behind `limit` instructions. -/
def countTo (limit : Nat) (count : Nat) (_ : Machine) : Bool := count < limit

/-- A run of counted instructions ends at its limit, if nothing happens before. -/
theorem runLoop_countTo_of_uneventful {limit : Nat} (hReached : m.after? limit = some s)
    (hQuiet : ∀ k < limit, ∀ now, m.after? k = some now → now.Uneventful) :
    runLoop (countTo limit) .still (limit + 1) 0 m = ⟨{ s with pause := .tripwire }, .paused⟩ := by
  rw [Nat.add_comm limit 1, runLoop_through hReached hQuiet]
  · exact runLoop_of_sprung (by simp [countTo])
  · intro k hk now hNow
    simpa [countTo] using hk

/-- A run of counted instructions ends at the first event, if it comes within the
limit. -/
theorem runLoop_countTo_of_firstEvent {limit : Nat} (hEvent : m.FirstEvent n s)
    (hWithin : n < limit) :
    (∀ fault, s.step.2 = some fault →
      runLoop (countTo limit) .still (limit + 1) 0 m = ⟨s.step.1, .fault fault⟩) ∧
    (s.step.2 = none →
      runLoop (countTo limit) .still (limit + 1) 0 m =
        ⟨{ s.step.1 with pause := .breakpoint }, .paused⟩) := by
  have hThrough : runLoop (countTo limit) .still (limit - n + 1 + n) 0 m =
      runLoop (countTo limit) .still (limit - n + 1) (0 + n) s := by
    refine runLoop_through hEvent.reached hEvent.quiet fun k hk now hNow => ?_
    simp only [countTo, decide_eq_true_eq]
    omega
  have hBudget : limit - n + 1 + n = limit + 1 := by omega
  have hAllowed : countTo limit (0 + n) s = true := by simpa [countTo] using hWithin
  rw [hBudget] at hThrough
  rw [hThrough]
  have hStill : s.meanwhile (Course.still (0 + n)) = s := meanwhile_still s (0 + n)
  rcases cases_of_not_uneventful hEvent.event with ⟨m', fault, hStep⟩ | ⟨m', hStep, hBreak⟩
  · rw [runLoop_of_fault hAllowed ((congrArg step hStill).trans hStep), hStep]
    exact ⟨fun met hMet => by rw [Option.some.inj hMet], fun hNone => absurd hNone (by simp)⟩
  · rw [runLoop_of_breakpoint hAllowed ((congrArg step hStill).trans hStep) hBreak, hStep]
    exact ⟨fun met hMet => absurd hMet (by simp), fun _ => rfl⟩

/-! ## Counting -/

/-- As long as the limit is not passed, the wrapping counter tells the number of
instructions. -/
theorem withinLimit_iff {before limit : UInt64} {count : Nat}
    (hCounted : m.executed - before = UInt64.ofNat count) (hInside : count ≤ limit.toNat) :
    m.withinLimit before limit = countTo limit.toNat count m := by
  have hSmall := limit.toNat_lt
  have hCount : (UInt64.ofNat count).toNat = count := by
    rw [UInt64.toNat_ofNat']
    omega
  simp only [withinLimit, countTo, hCounted, UInt64.lt_iff_toNat_lt, hCount]

/-- To count by the counter of the machine is to count the instructions. -/
theorem runLoop_withinLimit {course : Course} {before limit : UInt64} {budget count : Nat}
    (hCounted : m.executed - before = UInt64.ofNat count) (hInside : count ≤ limit.toNat) :
    runLoop (fun _ now => now.withinLimit before limit) course budget count m =
      runLoop (countTo limit.toNat) course budget count m := by
  induction budget generalizing count m with
  | zero => rfl
  | succ budget ih =>
      have hAsked : m.withinLimit before limit = countTo limit.toNat count m :=
        withinLimit_iff hCounted hInside
      cases hAllowed : countTo limit.toNat count m with
      | false => rw [runLoop_of_sprung hAllowed, runLoop_of_sprung (hAsked.trans hAllowed)]
      | true =>
          have hMore : count < limit.toNat := by simpa [countTo] using hAllowed
          rcases hStep : (m.meanwhile (course count)).step with ⟨m', _ | fault⟩
          · cases hBreak : m'.atBreakpoint with
            | true =>
                rw [runLoop_of_breakpoint hAllowed hStep hBreak,
                  runLoop_of_breakpoint (hAsked.trans hAllowed) hStep hBreak]
            | false =>
                have hNext : m'.executed - before = UInt64.ofNat (count + 1) := by
                  rw [executed_step hStep, executed_meanwhile, UInt64.ofNat_add, ← hCounted]
                  grind
                rw [runLoop_of_clear hAllowed hStep hBreak,
                  runLoop_of_clear (hAsked.trans hAllowed) hStep hBreak]
                exact ih hNext hMore
          · rw [runLoop_of_fault hAllowed hStep, runLoop_of_fault (hAsked.trans hAllowed) hStep]

theorem runWithLimit_eq_runLoop (m : Machine) (limit : UInt64) (course : Course) :
    m.runWithLimit limit course =
      runLoop (countTo limit.toNat) course (limit.toNat + 1) 0 m.ready :=
  runLoop_withinLimit (UInt64.sub_self m.executed) (Nat.zero_le _)

/-! ## What has no influence -/

/-- The machine with its breakpoints in another row, and its counter moved on. -/
def rearranged (m : Machine) (row : List Breakpoint) (shift : UInt64) : Machine :=
  { m with breakpoints := row, executed := m.executed + shift }

/-- A step looks neither at the breakpoints nor at the counter, and it draws from no
generator but the one that the core has. -/
theorem step_around (m : Machine) (row : List Breakpoint) (randomness : RandomSource)
    (shift : UInt64) :
    ({ m with breakpoints := row, randomness, executed := m.executed + shift } : Machine).step =
      ({ m.step.1 with
          breakpoints := row
          randomness
          executed := m.step.1.executed + shift }, m.step.2) := by
  have hFetch : ({ m with
      breakpoints := row, randomness, executed := m.executed + shift } : Machine).deliver.fetch =
      m.deliver.fetch := rfl
  cases hFetched : m.deliver.fetch with
  | error fault =>
      rw [step_of_fetch_error hFetched, step_of_fetch_error (hFetch.trans hFetched)]
      rfl
  | ok i =>
      have hCore : (({ m with
          breakpoints := row
          randomness
          executed := m.executed + shift } : Machine).deliver.begin i).toCore =
          (m.deliver.begin i).toCore := rfl
      rcases hRun : i.execute.on (m.deliver.begin i).toCore with ⟨fault | _, after⟩
      · rw [step_of_execute_error hFetched hRun,
          step_of_execute_error (hFetch.trans hFetched) ((congrArg _ hCore).trans hRun)]
        rfl
      · rw [step_of_execute_ok hFetched hRun,
          step_of_execute_ok (hFetch.trans hFetched) ((congrArg _ hCore).trans hRun)]
        have hCounter : m.executed + shift + 1 = m.executed + 1 + shift := by grind
        have hLeft : (({ m with
            breakpoints := row
            randomness
            executed := m.executed + shift } : Machine).deliver.begin i).conclude after =
            { (m.deliver.begin i).conclude after with
              breakpoints := row
              randomness
              executed := m.executed + shift + 1 } := rfl
        rw [hLeft, hCounter]
        rfl

private theorem step_rearranged (m : Machine) (row : List Breakpoint) (shift : UInt64) :
    (m.rearranged row shift).step = (m.step.1.rearranged row shift, m.step.2) := by
  have hKept : ({ m.step.1 with randomness := m.randomness } : Machine) = m.step.1 := by
    rcases exists_step_eq m with ⟨core, opcode, executed, hLeft⟩
    rw [hLeft]
  calc (m.rearranged row shift).step
      = (({ m.step.1 with randomness := m.randomness } : Machine).rearranged row shift,
          m.step.2) := step_around m row m.randomness shift
    _ = (m.step.1.rearranged row shift, m.step.2) := by rw [hKept]

theorem atBreakpoint_congr {d : Machine} (hCore : d.toCore = m.toCore)
    (hSame : ∀ b, b ∈ d.breakpoints ↔ b ∈ m.breakpoints) : d.atBreakpoint = m.atBreakpoint := by
  rw [atBreakpoint, atBreakpoint, hCore, Bool.eq_iff_iff, List.any_eq_true, List.any_eq_true]
  simp only [hSame]

private theorem sideBySide_rearranged (row : List Breakpoint) (shift : UInt64) :
    SideBySide fun m d => (∀ b, b ∈ row ↔ b ∈ m.breakpoints) ∧ d = m.rearranged row shift where
  step := by
    rintro m d ⟨hSame, rfl⟩
    rw [step_rearranged]
    refine ⟨rfl, ?_, rfl⟩
    rw [(around_step m).1]
    exact hSame
  atBreakpoint := by
    rintro m d ⟨hSame, rfl⟩
    exact atBreakpoint_congr rfl hSame
  meanwhile := by
    rintro m d ⟨hSame, rfl⟩ i
    exact ⟨hSame, rfl⟩
  pause := by
    rintro m d ⟨hSame, rfl⟩ pause
    exact ⟨hSame, rfl⟩

/-- A run of counted instructions depends neither on the order of the breakpoints nor on
where the counter stands. -/
theorem runLoop_countTo_rearranged {course : Course} {row : List Breakpoint}
    {limit budget count : Nat}
    (hSame : ∀ b, b ∈ row ↔ b ∈ m.breakpoints) (shift : UInt64) :
    runLoop (countTo limit) course budget count (m.rearranged row shift) =
      ⟨(runLoop (countTo limit) course budget count m).machine.rearranged row shift,
        (runLoop (countTo limit) course budget count m).ending⟩ := by
  have hSide := sideBySide_rearranged row shift
  have hCounts : ∀ count (m d : Machine), (∀ b, b ∈ row ↔ b ∈ m.breakpoints) ∧
      d = m.rearranged row shift → countTo limit count d = countTo limit count m :=
    fun _ _ _ _ => rfl
  rcases hSide.runLoop hCounts ⟨hSame, rfl⟩ budget count course with ⟨hEnding, -, hMachine⟩
  rw [← hMachine, ← hEnding]

private theorem runWithLimit_rearranged {row : List Breakpoint}
    (hSame : ∀ b, b ∈ row ↔ b ∈ m.breakpoints) (shift limit : UInt64) :
    (m.rearranged row shift).runWithLimit limit =
      ⟨(m.runWithLimit limit).machine.rearranged row shift, (m.runWithLimit limit).ending⟩ := by
  rw [runWithLimit_eq_runLoop, runWithLimit_eq_runLoop]
  exact runLoop_countTo_rearranged (m := m.ready) hSame shift

/-! ## Runs one after the other -/

/-- Where there are no breakpoints, a step that succeeds is uneventful. -/
theorem uneventful_of_step (hNone : m.breakpoints = []) (hStep : m.step = (m', none)) :
    m.Uneventful := by
  refine ⟨m', hStep, ?_⟩
  rw [atBreakpoint, (around_of_step hStep).1, hNone]
  rfl

private theorem quiet_of_no_breakpoints (hNone : m.breakpoints = [])
    (hLast : m.after? n = some last) :
    ∀ k < n, ∀ now, m.after? k = some now → now.Uneventful := by
  intro k hk now hNow
  rcases exists_step_of_after?_lt hLast hk hNow with ⟨m', hStep, -⟩
  exact uneventful_of_step ((around_after? hNow).1.trans hNone) hStep

/-- A limited run without breakpoints and failing steps goes on to its limit. -/
theorem runWithLimit_of_no_breakpoints {limit : UInt64} (hNone : m.breakpoints = [])
    (hLast : m.ready.after? limit.toNat = some last) :
    m.runWithLimit limit = ⟨{ last with pause := .tripwire }, .paused⟩ := by
  rw [runWithLimit_eq_runLoop]
  exact runLoop_countTo_of_uneventful hLast (quiet_of_no_breakpoints hNone hLast)

/-- Two limited runs, one after the other, come to the state of a single one, up to what
the log tells of. -/
theorem runWithLimit_runWithLimit {a b : UInt64} (hSum : a.toNat + b.toNat < UInt64.size)
    (hNone : m.breakpoints = []) (hLast : m.ready.after? (a.toNat + b.toNat) = some last) :
    (m.runWithLimit (a + b)).ending = .paused ∧ (m.runWithLimit a).ending = .paused ∧
      ((m.runWithLimit a).machine.runWithLimit b).ending = .paused ∧
      ({ ((m.runWithLimit a).machine.runWithLimit b).machine with log := .empty } : Machine) =
        { (m.runWithLimit (a + b)).machine with log := .empty } := by
  have hToNat : (a + b).toNat = a.toNat + b.toNat := by
    rw [UInt64.toNat_add]
    exact Nat.mod_eq_of_lt hSum
  rcases exists_after? hLast (Nat.le_add_right a.toNat b.toNat) with ⟨between, hBetween⟩
  have hWhole : m.runWithLimit (a + b) = ⟨{ last with pause := .tripwire }, .paused⟩ :=
    runWithLimit_of_no_breakpoints hNone (by rw [hToNat]; exact hLast)
  have hFirst : m.runWithLimit a = ⟨{ between with pause := .tripwire }, .paused⟩ :=
    runWithLimit_of_no_breakpoints hNone hBetween
  -- The second run begins with an empty log, but otherwise where the single one is.
  have hAlike : ({ between with pause := .tripwire } : Machine).ready.ready = between.ready := rfl
  have hStates := map_ready_after?_congr hAlike b.toNat .still
  rw [← after?_add_still hBetween, hLast] at hStates
  rcases Option.map_eq_some_iff.1 hStates with ⟨last', hLast', hReady⟩
  have hSecond : ({ between with pause := .tripwire } : Machine).runWithLimit b =
      ⟨{ last' with pause := .tripwire }, .paused⟩ :=
    runWithLimit_of_no_breakpoints ((around_after? hBetween).1.trans hNone) hLast'
  rw [hWhole, hFirst]
  refine ⟨rfl, rfl, ?_⟩
  show (Machine.runWithLimit b { between with pause := .tripwire }).ending = .paused ∧ _
  rw [hSecond]
  exact ⟨rfl, congrArg (fun m : Machine => { m with pause := .tripwire }) hReady⟩

/-! ## The whole -/

/-- Where no event comes first, there is none. -/
theorem quiet_of_no_firstEvent (hNone : ∀ k < n, ∀ now, ¬ m.FirstEvent k now) :
    ∀ k < n, ∀ now, m.after? k = some now → now.Uneventful := by
  intro k
  induction k using Nat.strongRecOn with
  | ind k ih =>
      intro hk now hNow
      refine Classical.byContradiction fun hEvent => ?_
      exact hNone k hk now ⟨hNow, fun j hj => ih j hj (Nat.lt_trans hj hk), hEvent⟩

/-- The run takes single steps from `m` until the first event, and `limit` of them if
there is no event before. -/
structure CutAtEvent (m : Machine) (limit : UInt64) (run : Run) : Prop where
  /-- A step that fails ends the run by its fault. The state is the one before this
  step, in which the key events have been delivered. -/
  fault : ∀ n < limit.toNat, ∀ s fault, m.FirstEvent n s → s.step.2 = some fault →
    run = ⟨s.deliver, .fault fault⟩ ∧ run.machine.hitBreakpoint = false
  /-- A breakpoint ends the run in the state that meets it. -/
  breakpoint : ∀ n < limit.toNat, ∀ s, m.FirstEvent n s → s.step.2 = none →
    s.step.1.atBreakpoint = true ∧ run = ⟨{ s.step.1 with pause := .breakpoint }, .paused⟩ ∧
      run.machine.hitBreakpoint = true
  /-- The limit ends a run without events. -/
  limit : (∀ n < limit.toNat, ∀ s, ¬ m.FirstEvent n s) →
    ∃ s, m.after? limit.toNat = some s ∧ run = ⟨{ s with pause := .tripwire }, .paused⟩ ∧
      run.machine.hitBreakpoint = false

private theorem cutAtEvent_runWithLimit (m : Machine) (limit : UInt64) :
    CutAtEvent m.ready limit (m.runWithLimit limit) where
  fault := by
    intro n hn s fault hFirst hFault
    have hStep : s.step = (s.step.1, some fault) := by rw [← hFault]
    have hRun := (runLoop_countTo_of_firstEvent hFirst hn).1 fault hFault
    rw [← runWithLimit_eq_runLoop, eq_deliver_of_step_fault hStep] at hRun
    have hPause : s.pause = .unsuccessful := (around_after? hFirst.reached).2
    rw [hRun]
    refine ⟨rfl, ?_⟩
    show decide (s.pause = .breakpoint) = false
    rw [hPause]
    rfl
  breakpoint := by
    intro n hn s hFirst hNone
    have hRun := (runLoop_countTo_of_firstEvent hFirst hn).2 hNone
    rw [← runWithLimit_eq_runLoop] at hRun
    rcases cases_of_not_uneventful hFirst.event with ⟨m', fault, hStep⟩ | ⟨m', hStep, hBreak⟩
    · rw [hStep] at hNone
      exact absurd hNone (by simp)
    · rw [hRun, hStep]
      exact ⟨hBreak, rfl, rfl⟩
  limit := by
    intro hNone
    have hQuiet := quiet_of_no_firstEvent hNone
    rcases exists_after?_of_uneventful hQuiet with ⟨s, hReached⟩
    have hRun := runLoop_countTo_of_uneventful hReached hQuiet
    rw [← runWithLimit_eq_runLoop] at hRun
    rw [hRun]
    exact ⟨s, hReached, rfl, rfl⟩

/-- A limited run takes the steps that single steps take, with the same events on the
way, and is cut at the first of them. It depends neither on the order in which the
breakpoints are looked at nor on where the counter of the machine stands, also where the
counter wraps. Two such runs that nothing cuts short come, one after the other, to the
state of a single one, up to the log. All these are runs around which nothing
happens. -/
theorem runWithLimit_cut_at_first_event (m : Machine) (limit : UInt64) :
    CutAtEvent m.ready limit (m.runWithLimit limit) ∧
    (∀ n, (m.ready.after? n).map ready = (m.singly? n).map ready) ∧
    (∀ s s' : Machine, s.ready = s'.ready →
      s.step.2 = s'.step.2 ∧ s.step.1.atBreakpoint = s'.step.1.atBreakpoint) ∧
    (∀ row shift, (∀ b, b ∈ row ↔ b ∈ m.breakpoints) →
      (m.rearranged row shift).runWithLimit limit =
        ⟨(m.runWithLimit limit).machine.rearranged row shift,
          (m.runWithLimit limit).ending⟩) ∧
    (∀ more : UInt64, limit.toNat + more.toNat < UInt64.size → m.breakpoints = [] →
      (m.ready.after? (limit.toNat + more.toNat)).isSome →
      (m.runWithLimit (limit + more)).ending = .paused ∧
        (m.runWithLimit limit).ending = .paused ∧
        ((m.runWithLimit limit).machine.runWithLimit more).ending = .paused ∧
        ({ ((m.runWithLimit limit).machine.runWithLimit more).machine with
          log := .empty } : Machine) =
          { (m.runWithLimit (limit + more)).machine with log := .empty }) := by
  refine ⟨cutAtEvent_runWithLimit m limit, ?_, ?_, ?_, ?_⟩
  · intro n
    have hAlike : m.ready = m.ready.ready := rfl
    exact (map_ready_singly? hAlike n).symm
  · intro s s' hAlike
    exact event_congr_ready hAlike
  · intro row shift hSame
    exact runWithLimit_rearranged hSame shift limit
  · intro more hSum hNone hSteps
    rcases Option.isSome_iff_exists.1 hSteps with ⟨last, hLast⟩
    exact runWithLimit_runWithLimit hSum hNone hLast

/-- A machine that adds to a register in a loop, and whose counter is about to wrap. -/
def aboutToWrap : Machine :=
  { Machine.start none 0 with
    memory := memoryOf [0x70, 0x01, 0x12, 0x00]
    executed := 0xFFFFFFFFFFFFFFFE
    breakpoints := [.register Register.zero (.is .ge 2), .pc 0x300] }

/-- The second addition is the first event, and the run is cut behind it while the
counter has wrapped. -/
theorem runWithLimit_cut_at_first_event_wrapping :
    ∃ s, aboutToWrap.ready.FirstEvent 2 s ∧ s.step.2 = none ∧
      aboutToWrap.runWithLimit 9 = ⟨{ s.step.1 with pause := .breakpoint }, .paused⟩ := by
  have hQuiet : ∀ k < 2, (aboutToWrap.ready.after? k).map
      (fun now => (now.step.2, now.step.1.atBreakpoint)) = some (none, false) := by
    decide +kernel
  have hEvent : (aboutToWrap.ready.after? 2).map
      (fun now => (now.step.2, now.step.1.atBreakpoint)) = some (none, true) := by
    decide +kernel
  rcases Option.map_eq_some_iff.1 hEvent with ⟨s, hReached, hParts⟩
  rcases Prod.mk.inj hParts with ⟨hNone, hBreak⟩
  have hFirst : aboutToWrap.ready.FirstEvent 2 s :=
    { reached := hReached
      quiet := by
        intro k hk now hNow
        have hNowParts := hQuiet k hk
        rw [hNow] at hNowParts
        rcases Prod.mk.inj (Option.some.inj hNowParts) with ⟨hClear, hNoBreak⟩
        exact ⟨now.step.1, Prod.ext rfl hClear, hNoBreak⟩
      event := by
        intro hUneventful
        rcases hUneventful with ⟨m', hStep, hNoBreak⟩
        rw [hStep] at hBreak
        exact absurd (hNoBreak.symm.trans hBreak) (by decide) }
  have hCut := (runWithLimit_cut_at_first_event aboutToWrap 9).1
  exact ⟨s, hFirst, hNone, (hCut.breakpoint 2 (by decide) s hFirst hNone).2.1⟩

example : (aboutToWrap.runWithLimit 9).machine.hitBreakpoint = true ∧
    (aboutToWrap.runWithLimit 9).machine.executed = 1 ∧
    (aboutToWrap.runWithLimit 2).machine.hitBreakpoint = false := by
  decide +kernel

end Chip8.Machine

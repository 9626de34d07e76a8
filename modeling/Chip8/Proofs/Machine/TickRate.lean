import Chip8.Proofs.Machine.TimerCap
import Mathlib.Data.List.Chain
import Mathlib.Order.Bounds.Defs

/-!
# The rate of the ticks

A tick that is taken moves the time up to which ticks were taken on by one period, and
not to the time at which it was offered. This time therefore stays on the schedule that
was set at the start, however irregular the offers are, and each period that it is
behind the clock is one that a later offer can make up for.

An offer is taken if more than a period has passed since that time, so that it never
comes before the clock. If the offers are a period apart at most, it is never more than
a period behind an offer either, and then as many ticks are taken as periods have
passed, less the one that ends just then.

## Main definitions

* `Timers.Event`, `Timers.Clocked` — the timers beside a clock, and what happens to
  them.
* `Clocked.ticks`, `Clocked.readings` — the ticks of a row of events, and the times of
  its offers.
* `Clocked.OnSchedule`, `Clocked.OnTime` — the invariants of every row.
* `Timers.KeepsUp` — and that of the offers that are not far apart.

## Main results

* `Clocked.OnSchedule.on`, `Clocked.OnSchedule.behind` — one event, and a row of them.
* `Clocked.OnTime.keepsUp`, `Clocked.keepsUp_behind` — one offer, and a row with offers.
* `Timers.isGreatest_of_keepsUp` — the number of ticks.
* `Timers.ticks_on_schedule` — all of this for timers that were started or set back.
-/

namespace Chip8

/-- The timers with another value in one of them. -/
def Timer.put (t : Timer) (value : UInt8) (timers : Timers) : Timers :=
  match t with
  | delay => { timers with delay := value }
  | sound => { timers with sound := value }

private theorem Timer.lastTick_put (t : Timer) (value : UInt8) (timers : Timers) :
    (t.put value timers).lastTick = timers.lastTick := by
  cases t <;> rfl

private theorem Timer.enabled_put (t : Timer) (value : UInt8) (timers : Timers) :
    (t.put value timers).enabled = timers.enabled := by
  cases t <;> rfl

namespace Timers

/-- What happens to timers beside a clock. -/
inductive Event where
  /-- The clock goes on. -/
  | pass (duration : Nat)
  /-- A timer is set. -/
  | put (t : Timer) (value : UInt8)
  /-- A tick is offered. -/
  | offer
  deriving DecidableEq, Repr

/-- Timers beside a clock. -/
structure Clocked where
  timers : Timers
  now : Nat
  deriving DecidableEq, Repr

/-- Timers that are enabled take a tick if more than a period has passed. -/
theorem isDue_iff_of_enabled {timers : Timers} {now : Nat} (hEnabled : timers.enabled = true) :
    timers.isDue now ↔ tickPeriod < now - timers.lastTick := by
  simp [isDue, hEnabled]

/-- No timers take a tick before more than a period has passed. -/
theorem lt_of_isDue {timers : Timers} {now : Nat} (hDue : timers.isDue now) :
    tickPeriod < now - timers.lastTick := by
  rw [isDue, Bool.and_eq_true, decide_eq_true_eq] at hDue
  exact hDue.2

private theorem enabled_tick (timers : Timers) (now : Nat) :
    (timers.tick now).enabled = timers.enabled := by
  by_cases hDue : timers.isDue now
  · rw [tick_of_isDue hDue]
  · rw [tick_of_not_isDue hDue]

namespace Clocked

variable {w : Clocked} {start latest count : Nat}

/-- What an event leaves. -/
def on (w : Clocked) : Event → Clocked
  | .pass duration => { w with now := w.now + duration }
  | .put t value => { w with timers := t.put value w.timers }
  | .offer => { w with timers := w.timers.tick w.now }

/-- What a row of events leaves. -/
def behind (w : Clocked) (row : List Event) : Clocked := row.foldl on w

/-- The number of ticks that are taken at an event. -/
def taken (w : Clocked) : Event → Nat
  | .pass _ | .put _ _ => 0
  | .offer => if w.timers.isDue w.now then 1 else 0

/-- The number of ticks that are taken in a row of events. -/
def ticks : Clocked → List Event → Nat
  | _, [] => 0
  | w, e :: row => w.taken e + (w.on e).ticks row

/-- The times at which ticks are offered in a row of events. -/
def readings : Clocked → List Event → List Nat
  | _, [] => []
  | w, .offer :: row => w.now :: (w.on .offer).readings row
  | w, e :: row => (w.on e).readings row

private theorem readings_concat_offer (w : Clocked) (row : List Event) :
    w.readings (row ++ [.offer]) = w.readings row ++ [(w.behind row).now] := by
  induction row generalizing w with
  | nil => rfl
  | cons e row ih =>
      cases e with
      | offer => exact congrArg (w.now :: ·) (ih (w.on .offer))
      | pass duration => exact ih (w.on (.pass duration))
      | put t value => exact ih (w.on (.put t value))

/-! ## The schedule -/

/-- The time up to which ticks were taken is as many periods behind the start as there
were ticks, and has been reached by the clock. -/
structure OnSchedule (start count : Nat) (w : Clocked) : Prop where
  lastTick : w.timers.lastTick = start + count * tickPeriod
  reached : w.timers.lastTick ≤ w.now

/-- Only a tick moves the time up to which ticks were taken, and more than a period has
passed since then. -/
theorem OnSchedule.on (hOnSchedule : OnSchedule start count w) (e : Event) :
    OnSchedule start (count + w.taken e) (w.on e) := by
  cases e with
  | pass duration => exact ⟨hOnSchedule.lastTick, Nat.le_add_right_of_le hOnSchedule.reached⟩
  | put t value =>
      refine ⟨(t.lastTick_put ..).trans hOnSchedule.lastTick, ?_⟩
      exact (t.lastTick_put value w.timers).symm ▸ hOnSchedule.reached
  | offer =>
      by_cases hDue : w.timers.isDue w.now
      · have hLate := lt_of_isDue hDue
        have hSchedule := hOnSchedule.lastTick
        simp only [Clocked.on, taken, if_pos hDue, tick_of_isDue hDue]
        refine ⟨?_, ?_⟩
        · show w.timers.lastTick + tickPeriod = start + (count + 1) * tickPeriod
          rw [hSchedule, Nat.succ_mul, Nat.add_assoc]
        · show w.timers.lastTick + tickPeriod ≤ w.now
          omega
      · simp only [Clocked.on, taken, if_neg hDue, tick_of_not_isDue hDue]
        exact hOnSchedule

theorem OnSchedule.behind (hOnSchedule : OnSchedule start count w) (row : List Event) :
    OnSchedule start (count + w.ticks row) (w.behind row) := by
  induction row generalizing w count with
  | nil => exact hOnSchedule
  | cons e row ih =>
      have hRest := ih (hOnSchedule.on e)
      rw [Nat.add_assoc] at hRest
      exact hRest

/-- The ticks take no more time than there was. -/
theorem OnSchedule.ticks_mul_le (hOnSchedule : OnSchedule start count w) :
    count * tickPeriod ≤ w.now - start := by
  have hSchedule := hOnSchedule.lastTick
  have hReached := hOnSchedule.reached
  omega

/-- No event enables timers or disables them. -/
theorem enabled_on (w : Clocked) (e : Event) : (w.on e).timers.enabled = w.timers.enabled := by
  cases e with
  | pass duration => rfl
  | put t value => exact t.enabled_put value w.timers
  | offer => exact enabled_tick w.timers w.now

theorem enabled_behind (w : Clocked) (row : List Event) :
    (w.behind row).timers.enabled = w.timers.enabled := by
  induction row generalizing w with
  | nil => rfl
  | cons e row ih => exact (ih (w.on e)).trans (w.enabled_on e)

/-- The timers are enabled and on schedule. -/
structure OnTime (start count : Nat) (w : Clocked) : Prop extends OnSchedule start count w where
  enabled : w.timers.enabled = true

/-- The timers are on time behind each event. -/
theorem OnTime.on (hOnTime : OnTime start count w) (e : Event) :
    OnTime start (count + w.taken e) (w.on e) :=
  ⟨hOnTime.toOnSchedule.on e, (w.enabled_on e).trans hOnTime.enabled⟩

/-- The timers are on time behind every row of events. -/
theorem OnTime.behind (hOnTime : OnTime start count w) (row : List Event) :
    OnTime start (count + w.ticks row) (w.behind row) :=
  ⟨hOnTime.toOnSchedule.behind row, (w.enabled_behind row).trans hOnTime.enabled⟩

end Clocked

/-! ## Offers that are not far apart -/

/-- At the time of the latest offer, no tick is taken too early and none is missing. -/
structure KeepsUp (start latest count : Nat) : Prop where
  passed : count = 0 ∨ count * tickPeriod < latest - start
  complete : latest ≤ start + (count + 1) * tickPeriod

/-- There are as many ticks as periods that ended before the latest offer. -/
theorem isGreatest_of_keepsUp {start latest count : Nat} (hKeeps : KeepsUp start latest count) :
    IsGreatest {k | k = 0 ∨ k * tickPeriod < latest - start} count := by
  refine ⟨hKeeps.passed, fun k hPassed => ?_⟩
  rcases hPassed with rfl | hPassed
  · exact Nat.zero_le count
  · have hComplete := hKeeps.complete
    have hBelow : k * tickPeriod < (count + 1) * tickPeriod := by omega
    exact Nat.le_of_lt_succ (Nat.lt_of_mul_lt_mul_right hBelow)

namespace Clocked

variable {w : Clocked} {start latest count : Nat}

/-- An offer that is not more than a period behind the one before keeps up. -/
theorem OnTime.keepsUp (hOnTime : OnTime start count w) (hKeeps : KeepsUp start latest count)
    (hLatest : latest ≤ w.now) (hSoon : w.now ≤ latest + tickPeriod) :
    KeepsUp start w.now (count + w.taken .offer) := by
  have hSchedule := hOnTime.lastTick
  have hComplete := hKeeps.complete
  have hNext : (count + 1) * tickPeriod = count * tickPeriod + tickPeriod := Nat.succ_mul ..
  by_cases hDue : w.timers.isDue w.now
  · have hLate := (isDue_iff_of_enabled hOnTime.enabled).1 hDue
    have hSecond : (count + 1 + 1) * tickPeriod = (count + 1) * tickPeriod + tickPeriod :=
      Nat.succ_mul ..
    simp only [taken, if_pos hDue]
    exact ⟨.inr (by omega), by omega⟩
  · have hEarly : ¬ tickPeriod < w.now - w.timers.lastTick := fun hLate =>
      hDue ((isDue_iff_of_enabled hOnTime.enabled).2 hLate)
    simp only [taken, if_neg hDue]
    refine ⟨hKeeps.passed.imp_right fun hPassed => ?_, ?_⟩
    · exact Nat.lt_of_lt_of_le hPassed (Nat.sub_le_sub_right hLatest start)
    · show w.now ≤ start + (count + 1) * tickPeriod
      omega

/-- A row of events in which each offer is not more than a period behind the one before
keeps up. -/
theorem keepsUp_behind {row : List Event} (hOnTime : OnTime start count w)
    (hKeeps : KeepsUp start latest count) (hLatest : latest ≤ w.now)
    (hChain : (latest :: w.readings row).IsChain fun a b => b ≤ a + tickPeriod) :
    KeepsUp start ((w.readings row).getLastD latest) (count + w.ticks row) := by
  induction row generalizing w latest count with
  | nil => exact hKeeps
  | cons e row ih =>
      rw [ticks, ← Nat.add_assoc]
      cases e with
      | pass duration =>
          exact ih (hOnTime.on _) hKeeps (Nat.le_add_right_of_le hLatest) hChain
      | put t value => exact ih (hOnTime.on _) hKeeps hLatest hChain
      | offer =>
          rcases List.isChain_cons_cons.1 hChain with ⟨hSoon, hRest⟩
          rw [readings, List.getLastD_cons]
          exact ih (hOnTime.on _) (hOnTime.keepsUp hKeeps hLatest hSoon) (Nat.le_refl _) hRest

end Clocked

/-! ## From the start -/

variable {first : Clocked}

private theorem onTime_of_start (hStart : first.timers = start first.now) :
    Clocked.OnTime first.now 0 first := by
  refine ⟨⟨?_, ?_⟩, ?_⟩
  · rw [hStart, Nat.zero_mul]
    rfl
  · rw [hStart]
    exact Nat.le_refl first.now
  · rw [hStart]
    rfl

/-- Behind timers that were started or set back, the time up to which ticks were taken
is the time of the start and a period for each tick; this is never more time than has
passed, nor in the future. If the first offer is at most a period behind the start and
each further one at most a period behind the one before, then at an offer the number of
ticks is the greatest number of periods that is less than the time that has passed. An
offer that is taken counts the timers down, not below zero, and caps them, and one that
is not taken changes nothing. -/
theorem ticks_on_schedule
    (hStart : first.timers = start first.now ∨ ∃ old : Timers, first.timers = old.restart first.now)
    (row : List Event) :
    (first.behind row).timers.lastTick = first.now + first.ticks row * tickPeriod ∧
    first.ticks row * tickPeriod ≤ (first.behind row).now - first.now ∧
    (first.behind row).timers.lastTick ≤ (first.behind row).now ∧
    ((first.now :: first.readings (row ++ [.offer])).IsChain (fun a b => b ≤ a + tickPeriod) →
      IsGreatest {k | k = 0 ∨ k * tickPeriod < (first.behind row).now - first.now}
        (first.ticks (row ++ [.offer]))) ∧
    ((first.behind row).timers.isDue (first.behind row).now → ∀ t : Timer,
      (t.value ((first.behind row).on .offer).timers).toNat =
        min ((t.value (first.behind row).timers).toNat - 1) 60) ∧
    (¬ (first.behind row).timers.isDue (first.behind row).now →
      (first.behind row).on .offer = first.behind row) := by
  have hFresh : first.timers = start first.now := by
    rcases hStart with hFresh | ⟨old, hRestarted⟩
    · exact hFresh
    · exact hRestarted.trans (restart_eq_start old first.now)
  have hFirst := onTime_of_start hFresh
  have hOnTime := hFirst.behind row
  rw [Nat.zero_add] at hOnTime
  refine ⟨hOnTime.lastTick, hOnTime.ticks_mul_le, hOnTime.reached, fun hChain => ?_,
    Timer.toNat_value_tick, fun hIdle => ?_⟩
  · have hBegins : KeepsUp first.now first.now 0 := ⟨.inl rfl, Nat.le_add_right ..⟩
    have hKeeps := Clocked.keepsUp_behind hFirst hBegins (Nat.le_refl _) hChain
    rw [Clocked.readings_concat_offer, List.getLastD_concat, Nat.zero_add] at hKeeps
    exact isGreatest_of_keepsUp hKeeps
  · exact congrArg (fun timers => ({ first.behind row with timers } : Clocked))
      (tick_of_not_isDue hIdle)

/-- Timers that are started when their clock is at zero. -/
def startedAtZero : Clocked := ⟨start 0, 0⟩

/-- Offers at the ends of the first two periods, and the delay timer set above the cap
between. -/
def offeredEachPeriod : List Event :=
  [.pass tickPeriod, .offer, .put .delay 200, .pass tickPeriod, .offer]

/-- The offer at the end of the first period is not taken. The one at the end of the
second period is, and it caps the timer. -/
theorem ticks_on_schedule_each_period :
    startedAtZero.behind [.pass tickPeriod, .offer] = startedAtZero.behind [.pass tickPeriod] ∧
      IsGreatest {k | k = 0 ∨ k * tickPeriod < 2 * tickPeriod}
        (startedAtZero.ticks offeredEachPeriod) ∧
      startedAtZero.ticks offeredEachPeriod = 1 ∧
      (startedAtZero.behind offeredEachPeriod).timers.delay.toNat = 60 := by
  have hStart : startedAtZero.timers = start startedAtZero.now ∨
      ∃ old : Timers, startedAtZero.timers = old.restart startedAtZero.now := .inl rfl
  rcases ticks_on_schedule hStart [.pass tickPeriod] with ⟨-, -, -, -, -, hIdle⟩
  rcases ticks_on_schedule hStart [.pass tickPeriod, .offer, .put .delay 200, .pass tickPeriod] with
    ⟨-, -, -, hRate, hTaken, -⟩
  have hGreatest := hRate (by decide)
  have hDelay := hTaken (by decide) .delay
  exact ⟨hIdle (by decide), hGreatest, by decide, hDelay⟩

end Timers

end Chip8

import Chip8.Proofs.Machine.TickRate

/-!
# Time at zero

Disabled timers take no tick while both of them rest at zero. The time up to which ticks
were taken then stays where it is, and the clock goes on, so that the timers fall behind
as if they were running. Nothing brings the two together again when a timer is set. All
the time that passed at zero is made up for from then on, one tick at each offer.

So for disabled timers as for enabled ones, ticks are paid for with clock time of either
kind. Being disabled only decides at which offers a tick may be taken. What the ticks
took of the time at zero is at most the part of it in front of the latest tick, and
where a row has no such time in it, the ticks take no more than the time at which a
timer was running.

## Main definitions

* `Timers.isRunning` — one of the timers is not at zero.
* `Clocked.timeWhile` — the time that passes while the timers run, or while they rest.
* `Timers.disabled` — timers that are disabled as soon as they are started.

## Main results

* `Clocked.now_behind` — the two kinds of time make up the clock.
* `Clocked.ticks_catchingUp` — offers to a timer that is set again and again make up for
  lost time.
* `Timers.disabled_ticks_charged` — when disabled timers take a tick, and which time it
  takes.
* `Timers.exists_tick_without_running` — a tick although no time has passed while a
  timer ran.
-/

namespace Chip8.Timers

/-- One of the timers is not at zero. -/
def isRunning (timers : Timers) : Bool := timers.delay ≠ 0 || timers.sound ≠ 0

/-- Timers that are disabled take a tick if one of them runs and more than a period has
passed. -/
theorem isDue_iff_of_disabled {timers : Timers} {now : Nat} (hDisabled : timers.enabled = false) :
    timers.isDue now ↔ timers.isRunning = true ∧ tickPeriod < now - timers.lastTick := by
  simp [isDue, isRunning, hDisabled]

/-- The time that passes in an event. -/
def Event.duration : Event → Nat
  | pass duration => duration
  | put _ _ | offer => 0

namespace Clocked

variable {w : Clocked}

/-- The time that passes in a row of events while the timers run, or while they rest. -/
def timeWhile (running : Bool) : Clocked → List Event → Nat
  | _, [] => 0
  | w, e :: row =>
    (if w.timers.isRunning = running then e.duration else 0) + timeWhile running (w.on e) row

private theorem ticks_append (w : Clocked) (front back : List Event) :
    w.ticks (front ++ back) = w.ticks front + (w.behind front).ticks back := by
  induction front generalizing w with
  | nil => exact (Nat.zero_add _).symm
  | cons e front ih =>
      simp only [List.cons_append, ticks, ih, Nat.add_assoc]
      rfl

private theorem timeWhile_append (running : Bool) (w : Clocked) (front back : List Event) :
    w.timeWhile running (front ++ back) =
      w.timeWhile running front + (w.behind front).timeWhile running back := by
  induction front generalizing w with
  | nil => exact (Nat.zero_add _).symm
  | cons e front ih =>
      simp only [List.cons_append, timeWhile, ih, Nat.add_assoc]
      rfl

private theorem now_on (w : Clocked) (e : Event) : (w.on e).now = w.now + e.duration := by
  cases e <;> rfl

/-- Time passes while the timers run or while they rest. -/
theorem now_behind (w : Clocked) (row : List Event) :
    (w.behind row).now = w.now + (w.timeWhile true row + w.timeWhile false row) := by
  induction row generalizing w with
  | nil => rfl
  | cons e row ih =>
      have hRest : (w.behind (e :: row)).now = (w.on e).now +
          ((w.on e).timeWhile true row + (w.on e).timeWhile false row) := ih (w.on e)
      have hFirst := w.now_on e
      cases hRunning : w.timers.isRunning <;> simp only [timeWhile, hRunning] <;>
        simp only [Bool.false_eq_true, Bool.true_eq_false, if_true, if_false] <;> omega

/-! ## Making up for lost time -/

/-- A timer is set before each of a number of offers. -/
def catchingUp : Nat → List Event
  | 0 => []
  | count + 1 => .put .delay 1 :: .offer :: catchingUp count

/-- No time passes meanwhile. -/
theorem timeWhile_catchingUp (running : Bool) (w : Clocked) (count : Nat) :
    w.timeWhile running (catchingUp count) = 0 := by
  induction count generalizing w with
  | zero => rfl
  | succ count ih => simp [catchingUp, timeWhile, Event.duration, ih]

/-- Each of the offers is taken, as long as more than a period is left for it. -/
theorem ticks_catchingUp {count : Nat} (hLate : count * tickPeriod < w.now - w.timers.lastTick) :
    w.ticks (catchingUp count) = count := by
  induction count generalizing w with
  | zero => rfl
  | succ count ih =>
      have hNext : (count + 1) * tickPeriod = count * tickPeriod + tickPeriod := Nat.succ_mul ..
      have hDue : (w.on (.put .delay 1)).timers.isDue (w.on (.put .delay 1)).now := by
        have hPeriod : tickPeriod < w.now - w.timers.lastTick := by omega
        simp [isDue, on, Timer.put, hPeriod]
      have hTick : ((w.on (.put .delay 1)).on .offer).timers.lastTick =
          w.timers.lastTick + tickPeriod := by
        show ((w.on (.put .delay 1)).timers.tick (w.on (.put .delay 1)).now).lastTick = _
        rw [tick_of_isDue hDue]
        rfl
      have hRest : count * tickPeriod < ((w.on (.put .delay 1)).on .offer).now -
          ((w.on (.put .delay 1)).on .offer).timers.lastTick := by
        rw [hTick]
        show count * tickPeriod < w.now - (w.timers.lastTick + tickPeriod)
        omega
      simp only [catchingUp, ticks, ih hRest]
      simp only [taken, if_pos hDue]
      omega

end Clocked

/-! ## From the start -/

/-- Timers that are disabled as soon as they are started. -/
def disabled (now : Nat) : Clocked := ⟨{ start now with enabled := false }, now⟩

private theorem onSchedule_disabled (now : Nat) : Clocked.OnSchedule now 0 (disabled now) := by
  refine ⟨?_, Nat.le_refl now⟩
  rw [Nat.zero_mul]
  rfl

/-- Both timers at zero until a number of periods has passed, and then as many offers to
a timer that is set. -/
def restingFor (count : Nat) : List Event :=
  [.put .delay 0, .pass (count * tickPeriod + 1)] ++ Clocked.catchingUp count

/-- All the offers are taken, and no time has passed while a timer ran. -/
theorem restingFor_charged (now count : Nat) :
    (disabled now).ticks (restingFor count) = count ∧
      (disabled now).timeWhile true (restingFor count) = 0 := by
  have hLate : count * tickPeriod <
      now + (count * tickPeriod + 1) - (start now).lastTick := by
    show count * tickPeriod < now + (count * tickPeriod + 1) - now
    omega
  constructor
  · rw [restingFor, Clocked.ticks_append, Clocked.ticks_catchingUp hLate]
    exact Nat.zero_add count
  · rw [restingFor, Clocked.timeWhile_append, Clocked.timeWhile_catchingUp]
    rfl

/-- Timers that are disabled as soon as they are started take a tick at an offer exactly
if one of them is not at zero, and if the time that has passed so far, whether they ran
or rested, is more than that of the ticks before and one more. Hence the ticks take no
more than this time, and of the time at zero no more than there was in front of the
latest tick: none if there was none. Time at zero that a tick comes behind is taken in
full: there can be any number of ticks although no time has passed while a timer ran. -/
theorem disabled_ticks_charged (now : Nat) (row : List Event) :
    (((disabled now).behind row).timers.isDue ((disabled now).behind row).now ↔
      ((disabled now).behind row).timers.isRunning = true ∧
        ((disabled now).ticks row + 1) * tickPeriod <
          (disabled now).timeWhile true row + (disabled now).timeWhile false row) ∧
    ((disabled now).behind row).timers.lastTick = now + (disabled now).ticks row * tickPeriod ∧
    (∀ front back, row = front ++ back → ((disabled now).behind front).ticks back = 0 →
      (disabled now).ticks row * tickPeriod ≤
        (disabled now).timeWhile true row + (disabled now).timeWhile false front) ∧
    ∀ count, ∃ resting, (disabled now).ticks resting = count ∧
      (disabled now).timeWhile true resting = 0 := by
  have hSchedule := (onSchedule_disabled now).behind row
  rw [Nat.zero_add] at hSchedule
  refine ⟨?_, hSchedule.lastTick, fun front back hRow hNone => ?_,
    fun count => ⟨restingFor count, restingFor_charged now count⟩⟩
  · have hDisabled : ((disabled now).behind row).timers.enabled = false :=
      (disabled now).enabled_behind row
    have hNow : ((disabled now).behind row).now = now +
        ((disabled now).timeWhile true row + (disabled now).timeWhile false row) :=
      (disabled now).now_behind row
    have hNext : ((disabled now).ticks row + 1) * tickPeriod =
        (disabled now).ticks row * tickPeriod + tickPeriod := Nat.succ_mul ..
    rw [isDue_iff_of_disabled hDisabled, hNow, hSchedule.lastTick]
    refine and_congr_right fun _ => ?_
    omega
  · -- The ticks are those of the front, and the clock has reached them there.
    have hFront := ((onSchedule_disabled now).behind front).ticks_mul_le
    have hNow : ((disabled now).behind front).now = now +
        ((disabled now).timeWhile true front + (disabled now).timeWhile false front) :=
      (disabled now).now_behind front
    rw [hRow, Clocked.ticks_append, hNone, Nat.add_zero, Clocked.timeWhile_append]
    rw [Nat.zero_add, hNow] at hFront
    omega

/-- The delay timer is set to zero for a second, and then to five in front of an
offer. -/
def restingASecond : List Event :=
  [.put .delay 0, .pass 1000000000, .put .delay 5, .offer]

/-- The offer is taken, at the cost of a second at zero. -/
theorem disabled_ticks_charged_a_second :
    ((disabled 0).behind [.put .delay 0, .pass 1000000000, .put .delay 5]).timers.isDue 1000000000 ∧
      (disabled 0).ticks restingASecond * tickPeriod ≤
        (disabled 0).timeWhile true restingASecond +
          (disabled 0).timeWhile false restingASecond := by
  rcases disabled_ticks_charged 0 [.put .delay 0, .pass 1000000000, .put .delay 5] with ⟨hDue, -⟩
  rcases disabled_ticks_charged 0 restingASecond with ⟨-, -, hCharged, -⟩
  exact ⟨hDue.2 (by decide), hCharged restingASecond [] (by decide) rfl⟩

/-- Ticks can take more time than a timer was running for, although the timers are
disabled. -/
theorem exists_tick_without_running :
    (disabled 0).ticks restingASecond = 1 ∧ (disabled 0).timeWhile true restingASecond = 0 ∧
      ¬ (disabled 0).ticks restingASecond * tickPeriod ≤
        (disabled 0).timeWhile true restingASecond := by
  decide

end Chip8.Timers

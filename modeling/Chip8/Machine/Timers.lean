/-!
# The timers

The delay timer and the sound timer count down sixty times a second. Time is read from a
clock, in nanoseconds. The machine offers a tick after every instruction, and a tick is
taken if more than a period has passed since the one before. However much time has
passed, only one tick is taken at a time, and the next period begins where this one
ends, so that ticks that are late are made up for by the following ones.

Timers that are disabled stop when both are at zero.

## Main definitions

* `Timers`, `Timers.start`, `Timers.restart`, `Timers.isDue`, `Timers.tick`.

## Main results

* `toNat_countDown` — a tick takes one off a timer, not below zero, and caps it.
* `tick_of_isDue`, `tick_of_not_isDue` — time moves on by a period, or nothing changes.
-/

namespace Chip8

/-- The number of ticks in a second, and the value from which the delay timer starts. A
timer that is set higher comes down to it at the next tick. -/
def timerCap : UInt8 := 60

/-- The time between ticks, in nanoseconds. -/
def tickPeriod : Nat := 1000000000 / 60

/-- The two timers. -/
structure Timers where
  delay : UInt8
  sound : UInt8
  /-- Whether time also passes while both timers are at zero. -/
  enabled : Bool
  /-- The time up to which ticks were taken. -/
  lastTick : Nat
  deriving DecidableEq, Repr

namespace Timers

/-- The timers of a machine that is started at a time. -/
def start (now : Nat) : Timers := ⟨timerCap, 0, true, now⟩

/-- The timers when they have been set back at a time. -/
def restart (t : Timers) (now : Nat) : Timers :=
  { t with delay := timerCap, sound := 0, enabled := true, lastTick := now }

/-- The value of a timer after a tick. -/
def countDown (value : UInt8) : UInt8 := UInt8.ofNat (min (value.toNat - 1) timerCap.toNat)

/-- Whether a tick is taken at a time. -/
def isDue (t : Timers) (now : Nat) : Bool :=
  (t.enabled || t.delay ≠ 0 || t.sound ≠ 0) && tickPeriod < now - t.lastTick

/-- The timers after a tick was offered at a time. -/
def tick (t : Timers) (now : Nat) : Timers :=
  if t.isDue now then
    { t with
      delay := countDown t.delay
      sound := countDown t.sound
      lastTick := t.lastTick + tickPeriod }
  else t

/-- Timers that have been set back are those of a machine that is started. -/
theorem restart_eq_start (t : Timers) (now : Nat) : t.restart now = start now := rfl

theorem toNat_countDown (value : UInt8) :
    (countDown value).toNat = min (value.toNat - 1) timerCap.toNat := by
  have hCap : timerCap.toNat = 60 := rfl
  rw [countDown, UInt8.toNat_ofNat', hCap]
  omega

theorem tick_of_isDue {t : Timers} {now : Nat} (hDue : t.isDue now) :
    t.tick now =
      ⟨countDown t.delay, countDown t.sound, t.enabled, t.lastTick + tickPeriod⟩ := by
  simp [tick, hDue]

theorem tick_of_not_isDue {t : Timers} {now : Nat} (hIdle : ¬ t.isDue now) : t.tick now = t := by
  simp [tick, hIdle]

end Timers

end Chip8

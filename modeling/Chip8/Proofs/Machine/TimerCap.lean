import Chip8.Proofs.Machine.Failing
import Chip8.Proofs.Machine.Happenings
import Chip8.Proofs.Machine.Keeping

/-!
# Timers above the cap

A reset sets no timer higher than the cap, and a tick brings a timer down to the cap
wherever it stood. But an instruction that sets a timer takes whatever a register holds,
and behind it a tick is offered and not always taken. Until a tick is taken, the timer
then stays above the cap, and there an instruction reads it.

This is the only way for a timer to come above the cap. Of a row of happenings, the
latest that concerned the timer decides: if it is an instruction that set the timer, the
value is the one from the register, and if it is a tick or a reset, the value is at most
the cap.

## Main definitions

* `Timer` — one of the two timers; `Timer.value`, `Timer.setter`.
* `Machine.Sets`, `Machine.Ticks` — what the next step does to a timer.
* `Machine.Spared` — nothing in a row of happenings concerns a timer.

## Main results

* `Instruction.timers_eq_of_execute` — what an instruction does to the timers.
* `Machine.value_step` — the three ways of a step with a timer.
* `Machine.exists_of_value_above_cap` — where a timer above the cap comes from.
* `Machine.timer_above_cap_iff` — exactly when a timer is above the cap.
-/

namespace Chip8

/-- One of the two timers. -/
inductive Timer where
  | delay
  | sound
  deriving DecidableEq, Repr

namespace Timer

/-- What the timer stands at. -/
def value : Timer → Timers → UInt8
  | delay, timers => timers.delay
  | sound, timers => timers.sound

/-- The operation that sets the timer. -/
def setter : Timer → Operation
  | delay => .setDelay
  | sound => .setSound

/-- A tick that is taken takes one off the timer, not below zero, and brings it down to
the cap. -/
theorem toNat_value_tick {timers : Timers} {now : Nat} (hDue : timers.isDue now) (t : Timer) :
    (t.value (timers.tick now)).toNat = min ((t.value timers).toNat - 1) 60 := by
  rw [Timers.tick_of_isDue hDue]
  cases t with
  | delay => exact Timers.toNat_countDown timers.delay
  | sound => exact Timers.toNat_countDown timers.sound

private theorem value_tick_le {timers : Timers} {now : Nat} (hDue : timers.isDue now) (t : Timer) :
    (t.value (timers.tick now)).toNat ≤ 60 := by
  rw [t.toNat_value_tick hDue]
  exact Nat.min_le_right ..

/-- A reset sets the timer to the cap or to zero. -/
theorem value_reset_le (t : Timer) (m : Machine) : (t.value m.reset.timers).toNat ≤ 60 := by
  cases t with
  | delay => exact Nat.le_refl 60
  | sound => exact Nat.zero_le 60

end Timer

/-- What an instruction does to the timers, before a tick is offered. -/
theorem Instruction.timers_eq_of_execute {i : Instruction} {c after : Core}
    (hDone : i.execute.on c = (.ok (), after)) :
    after.timers = { c.timers with
      delay := if i.operation = .setDelay then c.registers.get i.x else c.timers.delay
      sound := if i.operation = .setSound then c.registers.get i.x else c.timers.sound } := by
  by_cases hTouched : .timers ∈ i.operation.touched
  · unfold execute at hDone
    rw [Change.on_bind_of_ok (Change.on_get c)] at hDone
    cases hOp : i.operation with
    | setDelay | setSound =>
        simp only [hOp] at hDone
        rw [← (Prod.mk.inj hDone).2]
        simp
    | _ => simp [hOp, Operation.touched] at hTouched
  · have hKept : after.timers = c.timers := by
      simpa only [hDone] using i.leaves.timers hTouched c
    rw [hKept]
    cases hOp : i.operation <;> simp [hOp, Operation.touched] at hTouched ⊢

/-- The time up to which ticks were taken stays, and a timer is set by one operation
only. -/
theorem Instruction.timers_of_execute {i : Instruction} {c after : Core}
    (hDone : i.execute.on c = (.ok (), after)) :
    after.timers.lastTick = c.timers.lastTick ∧
      ∀ t : Timer, t.value after.timers =
        if i.operation = t.setter then c.registers.get i.x else t.value c.timers := by
  rw [timers_eq_of_execute hDone]
  refine ⟨rfl, fun t => ?_⟩
  cases t with
  | delay => rfl
  | sound => rfl

namespace Machine

variable {m : Machine} {t : Timer}

/-- The next step sets the timer to a value. -/
def Sets (m : Machine) (t : Timer) (value : UInt8) : Prop :=
  ∃ i, m.fetch = .ok i ∧ i.operation = t.setter ∧ m.registers.get i.x = value

/-- The next step takes a tick: the time up to which ticks were taken moves on. -/
def Ticks (m : Machine) : Prop := m.step.1.timers.lastTick ≠ m.timers.lastTick

instance (m : Machine) : Decidable m.Ticks := inferInstanceAs (Decidable (_ ≠ _))

/-! ## One step -/

/-- An instruction that sets a timer does not fail. -/
theorem Sets.fault_eq_none {value : UInt8} (hSets : m.Sets t value) : m.step.2 = none := by
  rcases hSets with ⟨i, hFetch, hOp, -⟩
  rw [fault_step_of_fetch_ok hFetch, Instruction.refusal?_eq_none_iff, Instruction.blockLength?,
    hOp]
  cases t with
  | delay => simp [Timer.setter]
  | sound => simp [Timer.setter]

/-- Behind a step that takes a tick, the timer is not above the cap. Behind another
step, it stands at what it was set to, or at what it stood at before. -/
theorem value_step (m : Machine) (t : Timer) :
    m.Ticks ∧ (t.value m.step.1.timers).toNat ≤ 60 ∨
      ¬ m.Ticks ∧ m.Sets t (t.value m.step.1.timers) ∨
      ¬ m.Ticks ∧ (∀ value, ¬ m.Sets t value) ∧ t.value m.step.1.timers = t.value m.timers := by
  rcases hStep : m.step with ⟨m', _ | fault⟩
  · rcases exists_of_step_ok hStep with ⟨i, after, hFetch, hDone, hLeft⟩
    have hExecuted := Instruction.timers_of_execute hDone
    have hLast : after.timers.lastTick = m.timers.lastTick := hExecuted.1
    have hValue : t.value after.timers =
        if i.operation = t.setter then m.registers.get i.x else t.value m.timers := hExecuted.2 t
    have hTimers : m'.timers = after.timers.tick m.clock := by rw [hLeft]; rfl
    by_cases hDue : after.timers.isDue m.clock
    · have hTicks : m.Ticks := by
        show m.step.1.timers.lastTick ≠ m.timers.lastTick
        rw [hStep, hTimers, Timers.tick_of_isDue hDue, ← hLast]
        show after.timers.lastTick + tickPeriod ≠ after.timers.lastTick
        have hPeriod : 0 < tickPeriod := by decide
        omega
      refine .inl ⟨hTicks, ?_⟩
      rw [hTimers]
      exact t.value_tick_le hDue
    · rw [Timers.tick_of_not_isDue hDue] at hTimers
      have hNoTick : ¬ m.Ticks := by
        intro hTicks
        refine hTicks ?_
        rw [hStep, hTimers, hLast]
      rw [hTimers, hValue]
      by_cases hOp : i.operation = t.setter
      · rw [if_pos hOp]
        exact .inr (.inl ⟨hNoTick, i, hFetch, hOp, rfl⟩)
      · rw [if_neg hOp]
        refine .inr (.inr ⟨hNoTick, ?_, rfl⟩)
        rintro value ⟨j, hFetch', hSetter, -⟩
        have hSame : i = j := Except.ok.inj (hFetch.symm.trans hFetch')
        exact hOp (hSame ▸ hSetter)
  · have hLeft := eq_deliver_of_step_fault hStep
    refine .inr (.inr ⟨?_, fun value hSets => ?_, ?_⟩)
    · intro hTicks
      refine hTicks ?_
      rw [hStep, hLeft]
      rfl
    · have hNoFault := hSets.fault_eq_none
      rw [hStep] at hNoFault
      exact absurd hNoFault (by simp)
    · rw [hLeft]
      rfl

/-- A step sets the timer to one value only. -/
theorem Sets.unique {first second : UInt8} (hFirst : m.Sets t first) (hSecond : m.Sets t second) :
    first = second := by
  rcases hFirst with ⟨i, hFetch, -, rfl⟩
  rcases hSecond with ⟨j, hFetch', -, rfl⟩
  obtain rfl : i = j := Except.ok.inj (hFetch.symm.trans hFetch')
  rfl

/-- Where no tick is taken, the timer stands at what it is set to. -/
theorem Sets.value_step {value : UInt8} (hSets : m.Sets t value) (hNoTick : ¬ m.Ticks) :
    t.value m.step.1.timers = value := by
  rcases m.value_step t with ⟨hTicks, -⟩ | ⟨-, hSets'⟩ | ⟨-, hNone, -⟩
  · exact absurd hTicks hNoTick
  · exact hSets'.unique hSets
  · exact absurd hSets (hNone value)

/-! ## Rows of happenings -/

end Machine

/-- What happens to the machine does not concern the timer: it is not a reset, and not a
step that takes a tick or sets the timer. -/
def Happening.Spares (h : Happening) (t : Timer) (m : Machine) : Prop :=
  match h with
  | step => ¬ m.Ticks ∧ ∀ value, ¬ m.Sets t value
  | reset => False
  | send _ | operate _ | releaseAll | aside _ => True

namespace Machine

variable {m : Machine} {t : Timer} {value : UInt8}

/-- Nothing that happens in the row concerns the timer. -/
def Spared (m : Machine) (t : Timer) : List Happening → Prop
  | [] => True
  | h :: row => h.Spares t m ∧ Spared (h.on m) t row

private theorem value_on_of_spares {h : Happening} (hSpares : h.Spares t m) :
    t.value (h.on m).timers = t.value m.timers := by
  cases h with
  | step =>
      rcases m.value_step t with ⟨hTicks, -⟩ | ⟨-, hSets⟩ | ⟨-, -, hSame⟩
      · exact absurd hTicks hSpares.1
      · exact absurd hSets (hSpares.2 _)
      · exact hSame
  | reset => exact hSpares.elim
  | send | operate | releaseAll | aside => rfl

/-- A timer that nothing concerns stands at what it stood at before. -/
theorem Spared.value_behind {row : List Happening} (hSpared : m.Spared t row) :
    t.value (m.behind row).timers = t.value m.timers := by
  induction row generalizing m with
  | nil => rfl
  | cons h row ih => exact (ih hSpared.2).trans (value_on_of_spares hSpared.1)

/-- What concerns the timer leaves it at the cap or below, or is a step that sets it and
takes no tick. -/
theorem value_on_of_not_spares {h : Happening} (hConcerns : ¬ h.Spares t m) :
    (t.value (h.on m).timers).toNat ≤ 60 ∨
      h = .step ∧ ¬ m.Ticks ∧ m.Sets t (t.value (h.on m).timers) := by
  cases h with
  | step =>
      rcases m.value_step t with ⟨-, hLow⟩ | ⟨hNoTick, hSets⟩ | ⟨hNoTick, hNone, -⟩
      · exact .inl hLow
      · exact .inr ⟨rfl, hNoTick, hSets⟩
      · exact absurd ⟨hNoTick, hNone⟩ hConcerns
  | reset => exact .inl (t.value_reset_le m)
  | send | operate | releaseAll | aside => exact absurd trivial hConcerns

/-- The value of a timer above the cap is from before the row, or from a step in the
row. -/
theorem exists_of_value_above_cap {row : List Happening} (hAbove : 60 < value.toNat)
    (hValue : t.value (m.behind row).timers = value) :
    m.Spared t row ∧ t.value m.timers = value ∨
      ∃ front back, row = front ++ .step :: back ∧ (m.behind front).Sets t value ∧
        ¬ (m.behind front).Ticks ∧ (m.behind front).step.1.Spared t back := by
  induction row generalizing m with
  | nil => exact .inl ⟨trivial, hValue⟩
  | cons h row ih =>
      rcases ih hValue with ⟨hSpared, hSame⟩ | ⟨front, back, hRow, hStep⟩
      · by_cases hSpares : h.Spares t m
        · exact .inl ⟨⟨hSpares, hSpared⟩, (value_on_of_spares hSpares).symm.trans hSame⟩
        · rcases value_on_of_not_spares hSpares with hLow | ⟨rfl, hNoTick, hSets⟩
          · rw [hSame] at hLow
            omega
          · rw [hSame] at hSets
            exact .inr ⟨[], row, rfl, hSets, hNoTick, hSpared⟩
      · exact .inr ⟨h :: front, back, congrArg (h :: ·) hRow, hStep⟩

/-- An instruction that reads the delay timer does not fail, and delivers what the timer
stood at before the step. -/
theorem step_readDelay {i : Instruction} (hFetch : m.fetch = .ok i)
    (hOp : i.operation = .readDelay) :
    m.step.2 = none ∧ m.step.1.registers.get i.x = m.timers.delay := by
  have hExecute : i.execute.on (m.deliver.begin i).toCore =
      (.ok (), (m.deliver.begin i).setRegister i.x m.timers.delay) := by
    simp only [Instruction.execute, hOp, Change.on_bind, Change.on_get, Change.on_modify]
    rfl
  rw [step_of_execute_ok hFetch hExecute]
  exact ⟨rfl, (Registers.get_set _ _ _ _).trans (if_pos rfl)⟩

/-- Whatever happens to a machine behind a reset, a timer stands at a value above 60
exactly if an instruction has set it to this value, at a step that took no tick, and if
nothing since then was a reset, a tick or an instruction that set the timer. What a host
leads to is behind a row of happenings, and the instruction that reads the delay timer
delivers what it stands at. -/
theorem timer_above_cap_iff (m : Machine) :
    (∀ row t value, 60 < value.toNat →
      (t.value (m.reset.behind row).timers = value ↔
        ∃ front back, row = front ++ .step :: back ∧ (m.reset.behind front).Sets t value ∧
          ¬ (m.reset.behind front).Ticks ∧ (m.reset.behind front).step.1.Spared t back)) ∧
    (∀ last, Leads m.reset last → ∃ row, m.reset.behind row = last) ∧
    ∀ row i, (m.reset.behind row).fetch = .ok i → i.operation = .readDelay →
      (m.reset.behind row).step.2 = none ∧
        (m.reset.behind row).step.1.registers.get i.x =
          Timer.delay.value (m.reset.behind row).timers := by
  refine ⟨fun row t value hAbove => ⟨fun hValue => ?_, ?_⟩, fun last => exists_row_of_leads,
    fun row i => step_readDelay⟩
  · rcases exists_of_value_above_cap hAbove hValue with ⟨-, hFirst⟩ | hStep
    · have hLow := t.value_reset_le m
      rw [hFirst] at hLow
      omega
    · exact hStep
  · rintro ⟨front, back, rfl, hSets, hNoTick, hSpared⟩
    rw [behind_append]
    exact hSpared.value_behind.trans (hSets.value_step hNoTick)

/-- A machine whose program sets the delay timer to 255 and then reads it. -/
def settingHigh : Machine :=
  { Machine.start none 0 with
    memory := memoryOf [0x60, 0xFF, 0xF0, 0x15, 0xF1, 0x07]
    program := [0x60, 0xFF, 0xF0, 0x15, 0xF1, 0x07]
    program_fits := by decide }

private theorem reset_settingHigh : settingHigh.reset = settingHigh := by
  simp only [reset, Memory.clear_eq_zero, Timers.restart_eq_start]
  rfl

/-- The machine in front of the second instruction and of the third one. -/
private theorem course_settingHigh :
    (¬ Core.OffProgram (settingHigh.behind [.step]).pc ∧
      (settingHigh.behind [.step]).memory.word? (settingHigh.behind [.step]).pc.toNat =
        some 0xF015 ∧
      (settingHigh.behind [.step]).registers.get 0 = 255 ∧
      ¬ (settingHigh.behind [.step]).Ticks) ∧
    ¬ Core.OffProgram (settingHigh.behind [.step, .step]).pc ∧
      (settingHigh.behind [.step, .step]).memory.word?
        (settingHigh.behind [.step, .step]).pc.toNat = some 0xF107 ∧
      (settingHigh.behind [.step, .step]).timers.delay = 255 := by
  decide +kernel

/-- The second instruction of the program sets the timer. -/
private theorem sets_settingHigh : (settingHigh.behind [.step]).Sets .delay 255 := by
  rcases course_settingHigh with ⟨⟨hOn, hWord, hRegister, -⟩, -⟩
  exact ⟨⟨⟨.setDelay, .mov, .specialRegister, some .delay, 0xF015⟩, 0xF015⟩,
    Core.fetch_of_word hOn hWord (by decide +kernel), rfl, hRegister⟩

/-- The third instruction reads it. -/
private theorem fetch_settingHigh : (settingHigh.behind [.step, .step]).fetch =
    .ok ⟨⟨.readDelay, .mov, .registerSpecial, some .delay, 0xF007⟩, 0xF107⟩ :=
  Core.fetch_of_word course_settingHigh.2.1 course_settingHigh.2.2.1 (by decide +kernel)

theorem timer_above_cap_iff_set_high :
    60 < (255 : UInt8).toNat ∧
      Timer.delay.value (settingHigh.behind [.step, .step]).timers = 255 ∧
      (∃ row, settingHigh.behind row = settingHigh.step.1) ∧
      (settingHigh.behind [.step, .step]).step.2 = none := by
  have hCapped := timer_above_cap_iff settingHigh
  rw [reset_settingHigh] at hCapped
  rcases hCapped with ⟨hExactly, hRow, hReads⟩
  have hAbove : 60 < (255 : UInt8).toNat := by decide
  have hNoTick : ¬ (settingHigh.behind [.step]).Ticks := course_settingHigh.1.2.2.2
  have hValue := (hExactly [.step, .step] .delay 255 hAbove).2
    ⟨[.step], [], rfl, sets_settingHigh, hNoTick, trivial⟩
  exact ⟨hAbove, hValue, hRow _ (Leads.refl _).step, (hReads _ _ fetch_settingHigh rfl).1⟩

/-- A program that was loaded, and nothing but two steps of it, bring the delay timer to
255, and the third step delivers this number. -/
theorem delay_timer_at_255 :
    (Machine.start none 0).load [0x60, 0xFF, 0xF0, 0x15, 0xF1, 0x07] = .ok settingHigh ∧
      ∃ last i, Leads settingHigh last ∧ ¬ last.timers.delay.toNat ≤ 60 ∧
        last.fetch = .ok i ∧ i.operation = .readDelay ∧ i.x = 1 ∧
        last.step.2 = none ∧ last.step.1.registers.get i.x = 255 := by
  have hLoad : (Machine.start none 0).load [0x60, 0xFF, 0xF0, 0x15, 0xF1, 0x07] =
      .ok settingHigh := by
    refine load_eq_ok_iff.2 ⟨by decide, ?_⟩
    simp only [reset, Memory.clear_eq_zero, Timers.restart_eq_start]
    rfl
  have hLeads : Leads settingHigh (settingHigh.behind [.step, .step]) := (Leads.refl _).step.step
  have hDelay : (settingHigh.behind [.step, .step]).timers.delay = 255 :=
    course_settingHigh.2.2.2
  have hHigh : ¬ (settingHigh.behind [.step, .step]).timers.delay.toNat ≤ 60 := by
    rw [hDelay]
    decide
  have hRead := step_readDelay fetch_settingHigh rfl
  exact ⟨hLoad, _, _, hLeads, hHigh, fetch_settingHigh, rfl, by decide, hRead.1,
    hRead.2.trans hDelay⟩

end Machine

end Chip8

import Chip8.Proofs.Machine.Calls

/-!
# What a host can do to a machine

Between the calls of a host and during them stand key events and the passing of time,
and where no seed is set, nobody knows which random numbers come up next. A run may also
be given a tripwire that acts on the machine whenever it is asked, and what it does then
is again what a host can do. No other way leads from one state to another, as long as
nothing is written into the machine from outside.

Whatever the host does is made up of a few changes of the state: steps, what a run notes
about itself, resets, and changes of the keypad and of what surrounds the machine. A
property that none of them ends holds of every state to which the host leads the
machine.

## Main definitions

* `Action`, `Action.on` — what a host does, and what comes of it.
* `Machine.Leads` — a state is reached from another one by actions.
* `Machine.Stable` — a property that none of the changes ends.
* `Machine.Lasting` — a stable property that a reset gives to any machine.

## Main results

* `Machine.Stable.on` — one action leaves the property.
* `Machine.Stable.of_leads` — any row of actions does.
-/

namespace Chip8

/-- What a host can do. Besides calls, it can give a run any tripwire, send a key event
or bring it straight to the keypad, and let time pass. Other random numbers may also
come up from now on where no seed is set. -/
inductive Action where
  | call (c : Call) (budget : Nat) (course : Course := .still)
  | run (tripwire : Nat → Machine → Bool × Machine) (budget : Nat) (course : Course := .still)
  | send (e : KeyEvent)
  | operate (e : KeyEvent)
  | pass (duration : Nat)
  | renew (entropy : Generator)

namespace Action

/-- What comes of an action. Only calls and runs can end otherwise than orderly. -/
def on (a : Action) (m : Machine) : Run :=
  match a with
  | call c budget course => c.on budget m course
  | run tripwire budget course => m.runWhileActing budget tripwire course
  | send e => ⟨m.send e, .paused⟩
  | operate e => ⟨{ m with keypad := m.keypad.apply e }, .paused⟩
  | pass duration => ⟨{ m with clock := m.clock + duration }, .paused⟩
  | renew entropy => ⟨{ m with randomness := { m.randomness with entropy } }, .paused⟩

/-- The tripwire that an action brings with it, if it does. -/
def tripwire? : Action → Option (Nat → Machine → Bool × Machine)
  | call (.runWhile tripwire) _ _ => some tripwire.ask
  | run tripwire _ _ => some tripwire
  | _ => none

end Action

namespace Machine

/-- The host leads a machine to a state. Tripwires that act on the machine do so by
actions. The states inside a call count as well: behind its beginning, behind each of
its steps, and behind what happens in between. -/
inductive Leads : Machine → Machine → Prop where
  | refl (m : Machine) : Leads m m
  | act {first m : Machine} (hLeads : Leads first m) (a : Action)
      (hTripwire : ∀ tripwire, a.tripwire? = some tripwire →
        ∀ count now, Leads now (tripwire count now).2) :
      Leads first (a.on m).machine
  | beginStep {first m : Machine} (hLeads : Leads first m) : Leads first { m with log := .empty }
  | beginRun {first m : Machine} (hLeads : Leads first m) : Leads first m.ready
  | step {first m : Machine} (hLeads : Leads first m) : Leads first m.step.1
  | meanwhile {first m : Machine} (hLeads : Leads first m) (i : Interlude) :
      Leads first (m.meanwhile i)
  | trans {first m last : Machine} (hLeads : Leads first m) (hRest : Leads m last) :
      Leads first last

/-- A property of the machine that no change ends which a host can bring about. -/
structure Stable (P : Machine → Prop) : Prop where
  step {m : Machine} (hHolds : P m) : P m.step.1
  note {m : Machine} (hHolds : P m) (log : AccessLog) (pause : Pause) : P { m with log, pause }
  reset {m : Machine} (hHolds : P m) : P m.reset
  load {m : Machine} (hHolds : P m) {program : List UInt8}
    (hFits : program.length ≤ programCapacity) :
    P (Machine.reset { m with program, program_fits := hFits })
  send {m : Machine} (hHolds : P m) (e : KeyEvent) : P (m.send e)
  operate {m : Machine} (hHolds : P m) (e : KeyEvent) : P { m with keypad := m.keypad.apply e }
  pass {m : Machine} (hHolds : P m) (duration : Nat) :
    P { m with clock := m.clock + duration }
  renew {m : Machine} (hHolds : P m) (entropy : Generator) :
    P { m with randomness := { m.randomness with entropy } }

/-- A property of the machine that no change ends which a host can bring about. A reset
must give it to any machine. -/
structure Lasting (P : Machine → Prop) : Prop where
  step {m : Machine} (hHolds : P m) : P m.step.1
  note {m : Machine} (hHolds : P m) (log : AccessLog) (pause : Pause) : P { m with log, pause }
  reset (m : Machine) : P m.reset
  send {m : Machine} (hHolds : P m) (e : KeyEvent) : P (m.send e)
  operate {m : Machine} (hHolds : P m) (e : KeyEvent) : P { m with keypad := m.keypad.apply e }
  pass {m : Machine} (hHolds : P m) (duration : Nat) :
    P { m with clock := m.clock + duration }
  renew {m : Machine} (hHolds : P m) (entropy : Generator) :
    P { m with randomness := { m.randomness with entropy } }

namespace Stable

variable {P : Machine → Prop} {m : Machine}

/-- What happens around a machine is that time passes and key events are sent. -/
theorem meanwhile (hStable : Stable P) (hHolds : P m) (i : Interlude) : P (m.meanwhile i) := by
  have hSent : ∀ (sent : List KeyEvent) (now : Machine), P now →
      P (sent.foldl Machine.send now) := by
    intro sent
    induction sent with
    | nil => exact fun now hNow => hNow
    | cons e sent ih => exact fun now hNow => ih (now.send e) (hStable.send hNow e)
  rw [meanwhile_eq_foldl_send]
  exact hSent i.sent _ (hStable.pass hHolds i.duration)

theorem runLoopActing (hStable : Stable P) {tripwire : Nat → Machine → Bool × Machine}
    (hTripwire : ∀ count now, P now → P (tripwire count now).2) (hHolds : P m)
    (budget count : Nat) (course : Course) :
    P (Machine.runLoopActing tripwire course budget count m).machine := by
  induction budget generalizing count m with
  | zero => exact hHolds
  | succ budget ih =>
      have hNow := hTripwire count m hHolds
      rcases hAsked : tripwire count m with ⟨_ | _, asked⟩
      · rw [runLoopActing_of_sprung hAsked]
        rw [hAsked] at hNow
        exact hStable.note hNow asked.log .tripwire
      · rw [hAsked] at hNow
        have hStepped := hStable.step (hStable.meanwhile hNow (course count))
        rcases hStep : (asked.meanwhile (course count)).step with ⟨m', _ | fault⟩
        · rw [hStep] at hStepped
          cases hBreak : m'.atBreakpoint with
          | true =>
              rw [runLoopActing_of_breakpoint hAsked hStep hBreak]
              exact hStable.note hStepped m'.log .breakpoint
          | false =>
              rw [runLoopActing_of_clear hAsked hStep hBreak]
              exact ih hStepped (count + 1)
        · rw [hStep] at hStepped
          rw [runLoopActing_of_fault hAsked hStep]
          exact hStepped

theorem runWhileActing (hStable : Stable P) {tripwire : Nat → Machine → Bool × Machine}
    (hTripwire : ∀ count now, P now → P (tripwire count now).2) (hHolds : P m)
    (budget : Nat) (course : Course) : P (m.runWhileActing budget tripwire course).machine :=
  hStable.runLoopActing hTripwire (hStable.note hHolds .empty .unsuccessful) budget 0 course

/-- A tripwire that does not act leaves everything alone. -/
theorem runWhile (hStable : Stable P) (tripwire : Nat → Machine → Bool) (hHolds : P m)
    (budget : Nat) (course : Course) : P (m.runWhile budget tripwire course).machine := by
  rw [runWhile_eq_runWhileActing]
  exact hStable.runWhileActing (fun _ _ hNow => hNow) hHolds budget course

/-- One action leaves the property, if its tripwire does. -/
theorem on (hStable : Stable P) (a : Action)
    (hTripwire : ∀ tripwire, a.tripwire? = some tripwire →
      ∀ count now, P now → P (tripwire count now).2)
    (hHolds : P m) : P (a.on m).machine := by
  cases a with
  | call c budget course =>
      cases c with
      | stepIn =>
          show P (Call.stepIn.on budget m course).machine
          rw [Call.machine_on_stepIn]
          exact hStable.step (hStable.note (hStable.meanwhile hHolds (course 0)) .empty m.pause)
      | stepOver => exact hStable.runWhile _ hHolds budget course
      | stepOut =>
          show P (m.stepOut budget course).machine
          unfold Machine.stepOut
          by_cases hTop : m.stack = []
          · rw [if_pos hTop]
            exact hHolds
          · rw [if_neg hTop]
            exact hStable.runWhile _ hHolds budget course
      | runWhile tripwire =>
          exact hStable.runWhileActing (hTripwire tripwire.ask rfl) hHolds budget course
      | runWithLimit limit => exact hStable.runWhile _ hHolds _ course
      | reset => exact hStable.reset hHolds
      | load program =>
          show P ((Call.load program).on budget m course).machine
          by_cases hFits : program.length ≤ programCapacity
          · rw [Call.on_load_of_fits hFits]
            exact hStable.load hHolds hFits
          · rw [Call.on_load_of_not_fits hFits]
            exact hHolds
  | run tripwire budget course =>
      exact hStable.runWhileActing (hTripwire tripwire rfl) hHolds budget course
  | send e => exact hStable.send hHolds e
  | operate e => exact hStable.operate hHolds e
  | pass duration => exact hStable.pass hHolds duration
  | renew entropy => exact hStable.renew hHolds entropy

/-- The property holds of every state to which the host leads a machine that has it. -/
theorem of_leads (hStable : Stable P) {first last : Machine} (hLeads : Leads first last)
    (hHolds : P first) : P last := by
  induction hLeads with
  | refl m => exact hHolds
  | act _ a _ ih ihTripwire => exact hStable.on a ihTripwire (ih hHolds)
  | @beginStep first m _ ih => exact hStable.note (ih hHolds) .empty m.pause
  | beginRun _ ih => exact hStable.note (ih hHolds) .empty .unsuccessful
  | step _ ih => exact hStable.step (ih hHolds)
  | meanwhile _ i ih => exact hStable.meanwhile (ih hHolds) i
  | trans _ _ ih ihRest => exact ihRest (ih hHolds)

end Stable

/-- A property that a reset gives to any machine is left by a reset. -/
theorem Lasting.stable {P : Machine → Prop} (hLasting : Lasting P) : Stable P where
  step := hLasting.step
  note := hLasting.note
  reset _ := hLasting.reset _
  load _ _ _ := hLasting.reset _
  send := hLasting.send
  operate := hLasting.operate
  pass := hLasting.pass
  renew := hLasting.renew

theorem Lasting.of_leads {P : Machine → Prop} (hLasting : Lasting P) {first last : Machine}
    (hLeads : Leads first last) (hHolds : P first) : P last :=
  hLasting.stable.of_leads hLeads hHolds

end Machine

end Chip8

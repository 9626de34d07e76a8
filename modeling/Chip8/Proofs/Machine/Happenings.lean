import Chip8.Proofs.Machine.Host

/-!
# Rows of happenings

To follow the timers and the keypad through the life of a machine, it is enough to know
what happened to it one after the other: steps, resets, key events that were sent
through one of any number of handles, and what the host did to the keypad itself.
Everything else leaves the timers, the keypad and the events under way alone, whatever
it does to the rest of the machine.

Calls and runs are made up of such happenings, so that a host leads a machine to no
state that is not behind a row of them.

## Main definitions

* `Message` — a key event that was sent through a handle.
* `Happening`, `Happening.on` — what happens to a machine, and what comes of it.
* `Machine.behind` — the machine behind a row of happenings.

## Main results

* `Machine.exists_row_of_leads` — what a host leads to is behind a row of happenings.
-/

namespace Chip8

/-- A key event, and the handle through which it was sent. -/
structure Message where
  handle : Nat
  event : KeyEvent
  deriving DecidableEq, Repr

/-- What happens to a machine. -/
inductive Happening where
  | step
  | reset
  | send (message : Message)
  /-- The host brings an event straight to the keypad. -/
  | operate (e : KeyEvent)
  /-- The host releases all keys. -/
  | releaseAll
  /-- The machine becomes another one, but for the timers, the keypad and the events
  under way. -/
  | aside (other : Machine)

/-- What comes of it. -/
def Happening.on (h : Happening) (m : Machine) : Machine :=
  match h with
  | step => m.step.1
  | reset => m.reset
  | send message => m.send message.event
  | operate e => { m with keypad := m.keypad.apply e }
  | releaseAll => { m with keypad := .released }
  | aside other => { other with timers := m.timers, keypad := m.keypad, pending := m.pending }

namespace Machine

/-- The machine behind a row of happenings. -/
def behind (m : Machine) : List Happening → Machine
  | [] => m
  | h :: row => behind (h.on m) row

theorem behind_append (m : Machine) (row more : List Happening) :
    m.behind (row ++ more) = (m.behind row).behind more := by
  induction row generalizing m with
  | nil => rfl
  | cons h row ih => exact ih (h.on m)

private theorem behind_concat (m : Machine) (row : List Happening) (h : Happening) :
    m.behind (row ++ [h]) = h.on (m.behind row) := m.behind_append row [h]

/-- Everything that a host can do is made up of happenings. -/
theorem stable_behind (first : Machine) : Stable (∃ row, first.behind row = ·) where
  step := by
    rintro m ⟨row, rfl⟩
    exact ⟨row ++ [.step], first.behind_concat row _⟩
  note := by
    rintro m ⟨row, rfl⟩ log pause
    exact ⟨row ++ [.aside { first.behind row with log, pause }], first.behind_concat row _⟩
  reset := by
    rintro m ⟨row, rfl⟩
    exact ⟨row ++ [.reset], first.behind_concat row _⟩
  load := by
    rintro m ⟨row, rfl⟩ program hFits
    exact ⟨row ++ [.aside { first.behind row with program, program_fits := hFits }, .reset],
      first.behind_append row _⟩
  send := by
    rintro m ⟨row, rfl⟩ e
    exact ⟨row ++ [.send ⟨0, e⟩], first.behind_concat row _⟩
  operate := by
    rintro m ⟨row, rfl⟩ e
    exact ⟨row ++ [.operate e], first.behind_concat row _⟩
  pass := by
    rintro m ⟨row, rfl⟩ duration
    exact ⟨row ++ [.aside { first.behind row with clock := (first.behind row).clock + duration }],
      first.behind_concat row _⟩
  renew := by
    rintro m ⟨row, rfl⟩ entropy
    exact ⟨row ++ [.aside { first.behind row with
        randomness := { (first.behind row).randomness with entropy } }],
      first.behind_concat row _⟩

/-- A state to which the host leads a machine is behind a row of happenings. -/
theorem exists_row_of_leads {first last : Machine} (hLeads : Leads first last) :
    ∃ row, first.behind row = last :=
  (stable_behind first).of_leads hLeads ⟨[], rfl⟩

end Machine

end Chip8

import Chip8.Proofs.Machine.Addresses
import Chip8.Proofs.Machine.Happenings

/-!
# How key events are delivered

Key events that are sent through any number of handles come into one queue, and a step
empties the queue into the keypad before it looks at its instruction, whether it
succeeds or not. A reset releases all keys and leaves the queue alone. An instruction
that tests a key releases it if it is pressed.

The history of the keypad is therefore a row of changes that can be read off from what
happened to the machine, and the queue holds what was sent since the latest step. That
every event is delivered once and in order is an equation between rows: what was
delivered and what is still under way are together what was sent.

A handle may also be used while a step is emptying the queue. An event that gets into
the queue then is either still taken out by this step, or left for the next one, so that
it is sent in front of the step or behind it.

## Main definitions

* `KeyChange`, `Keypad.replay` — what is done to the keypad, and what comes of it.
* `KeyHistory`, `Machine.keyHistory` — what a row of happenings does to the keypad.
* `Machine.tested?`, `Machine.findings` — the key that a step tests, and how often it is
  found.
* `Drains` — the queue is emptied while events are sent.

## Main results

* `KeyHistory.Describes.behind` — the history gives the keypad and the queue.
* `KeyHistory.delivered_behind` — what is delivered is what was sent, in order.
* `Machine.findings_behind_le` — no press is found twice.
* `Machine.keys_delivered_once_in_order` — all this, behind any row of happenings.
-/

namespace Chip8

/-! ## Changes of the keypad -/

/-- What is done to the keypad. -/
inductive KeyChange where
  | operated (e : KeyEvent)
  /-- All keys are released, by the host or by a reset. -/
  | releasedAll
  | delivered (message : Message)
  /-- An instruction tests a key, and releases it if it is pressed. -/
  | tested (key : UInt8)
  deriving DecidableEq, Repr

namespace KeyChange

/-- The keypad after a change. -/
def on (c : KeyChange) (k : Keypad) : Keypad :=
  match c with
  | operated e => k.apply e
  | releasedAll => .released
  | delivered message => k.apply message.event
  | tested key => if k.isPressed key then k.apply (.release key) else k

/-- The event that is brought to the keypad, if it is one. -/
def event? : KeyChange → Option KeyEvent
  | operated e => some e
  | delivered message => some message.event
  | releasedAll | tested _ => none

/-- The message that is delivered, if it is one. -/
def message? : KeyChange → Option Message
  | delivered message => some message
  | operated _ | releasedAll | tested _ => none

end KeyChange

/-- The messages that are delivered, the oldest first. -/
def delivered (changes : List KeyChange) : List Message := changes.filterMap (·.message?)

/-- How often a key is pressed. -/
def presses (key : UInt8) (changes : List KeyChange) : Nat :=
  changes.countP (·.event? = some (.press key))

namespace Keypad

/-- The keypad after changes, one after the other. -/
def replay (k : Keypad) (changes : List KeyChange) : Keypad :=
  changes.foldl (fun k c => c.on k) k

/-- An event of a key that does not exist has no effect. -/
theorem apply_of_not_exists (k : Keypad) {e : KeyEvent} (hKey : 15 < e.key.toNat) :
    k.apply e = k := by
  have hOutside : 16 ≤ e.key.toNat := hKey
  unfold apply
  rw [Vector.setIfInBounds_eq_of_size_le hOutside]

private theorem replay_append (k : Keypad) (changes more : List KeyChange) :
    k.replay (changes ++ more) = (k.replay changes).replay more := List.foldl_append

/-- To deliver messages is to bring their events to the keypad. -/
theorem replay_delivered (k : Keypad) (messages : List Message) :
    k.replay (messages.map .delivered) = (messages.map (·.event)).foldl Keypad.apply k := by
  unfold replay
  rw [List.foldl_map, List.foldl_map]
  rfl

/-- One if the key is pressed, and zero otherwise. -/
def pressed (k : Keypad) (key : UInt8) : Nat := (k.isPressed key).toNat

/-- A key is pressed after an event only if it was before, or if the event presses
it. -/
theorem pressed_apply_le (k : Keypad) (e : KeyEvent) (key : UInt8) :
    (k.apply e).pressed key ≤ k.pressed key + (if some e = some (.press key) then 1 else 0) := by
  unfold pressed
  rw [isPressed_apply]
  by_cases hSame : e.key = key ∧ key.toNat < 16
  · rw [if_pos hSame]
    cases e with
    | press other =>
        have hKey : other = key := hSame.1
        rw [hKey, if_pos rfl]
        exact Nat.le_add_left 1 _
    | release other => exact Nat.zero_le _
  · rw [if_neg hSame]
    exact Nat.le_add_right _ _

private theorem pressed_released (key : UInt8) : released.pressed key = 0 := by
  unfold pressed isPressed released
  by_cases hInside : key.toNat < 16
  · simp [hInside]
  · simp [hInside]

/-- A key that was released is not pressed. -/
theorem pressed_release (k : Keypad) (key : UInt8) :
    (k.apply (.release key)).pressed key = 0 := by
  unfold pressed
  rw [isPressed_apply]
  by_cases hInside : key.toNat < 16
  · rw [if_pos ⟨rfl, hInside⟩]
    rfl
  · rw [if_neg (fun hSame => hInside hSame.2)]
    unfold isPressed
    simp [hInside]

/-- A change makes a key pressed only by a press of it. -/
theorem pressed_on_le (k : Keypad) (c : KeyChange) (key : UInt8) :
    (c.on k).pressed key ≤ k.pressed key + (if c.event? = some (.press key) then 1 else 0) := by
  cases c with
  | operated e => exact k.pressed_apply_le e key
  | delivered message => exact k.pressed_apply_le message.event key
  | releasedAll =>
      show released.pressed key ≤ _
      rw [pressed_released]
      exact Nat.zero_le _
  | tested other =>
      show (if k.isPressed other then k.apply (.release other) else k).pressed key ≤ _
      by_cases hFound : k.isPressed other
      · rw [if_pos hFound]
        exact k.pressed_apply_le (.release other) key
      · rw [if_neg hFound]
        exact Nat.le_add_right _ _

private theorem pressed_replay_le (k : Keypad) (changes : List KeyChange) (key : UInt8) :
    (k.replay changes).pressed key ≤ k.pressed key + presses key changes := by
  induction changes generalizing k with
  | nil => exact Nat.le_refl _
  | cons c changes ih =>
      have hFirst := k.pressed_on_le c key
      have hRest := ih (c.on k)
      have hCount : presses key (c :: changes) =
          presses key changes + (if c.event? = some (.press key) then 1 else 0) := by
        simp only [presses, List.countP_cons, decide_eq_true_eq]
      show ((c.on k).replay changes).pressed key ≤ _
      omega

end Keypad

/-! ## Steps -/

namespace Instruction

variable {i : Instruction} {c after : Core}

/-- An instruction that tests a key does nothing else to the keypad. -/
theorem keypad_of_execute_test (hOp : i.operation = .skipKey ∨ i.operation = .skipNotKey)
    (hDone : i.execute.on c = (.ok (), after)) :
    after.keypad = (KeyChange.tested (c.registers.get i.x)).on c.keypad := by
  show after.keypad = if c.keypad.isPressed (c.registers.get i.x) then
    c.keypad.apply (.release (c.registers.get i.x)) else c.keypad
  rcases hOp with hKey | hKey
  · rw [eq_of_execute_skipKey hKey hDone]
    by_cases hPressed : c.keypad.isPressed (c.registers.get i.x)
    · rw [if_pos hPressed, if_pos hPressed]
      rfl
    · rw [if_neg hPressed, if_neg hPressed]
  · rw [eq_of_execute_skipNotKey hKey hDone]
    by_cases hPressed : c.keypad.isPressed (c.registers.get i.x)
    · rw [if_pos hPressed, if_pos hPressed]
      rfl
    · rw [if_neg hPressed, if_neg hPressed]
      rfl

/-- Other instructions leave the keypad alone. -/
theorem keypad_of_execute_other (hOp : ¬ (i.operation = .skipKey ∨ i.operation = .skipNotKey))
    (hDone : i.execute.on c = (.ok (), after)) : after.keypad = c.keypad := by
  have hUntouched : .keypad ∉ i.operation.touched := by
    intro hTouched
    refine hOp ?_
    cases hKind : i.operation <;> simp [hKind, Operation.touched] at hTouched ⊢
  simpa only [hDone] using i.leaves.keypad hUntouched c

/-- The keypad stays as it is, or the key that is tested has been released. -/
theorem keypad_eq_of_execute (hDone : i.execute.on c = (.ok (), after)) :
    after.keypad = c.keypad ∨
      (i.operation = .skipKey ∨ i.operation = .skipNotKey) ∧
        after.keypad = c.keypad.apply (.release (c.registers.get i.x)) := by
  by_cases hTest : i.operation = .skipKey ∨ i.operation = .skipNotKey
  · rw [keypad_of_execute_test hTest hDone]
    unfold KeyChange.on
    by_cases hPressed : c.keypad.isPressed (c.registers.get i.x)
    · exact .inr ⟨hTest, if_pos hPressed⟩
    · exact .inl (if_neg hPressed)
  · exact .inl (keypad_of_execute_other hTest hDone)

end Instruction

namespace Machine

variable {m : Machine} {key : UInt8}

/-- The key that the next step tests, if it executes an instruction that tests one. -/
def tested? (m : Machine) : Option UInt8 :=
  match m.fetch, m.step.2 with
  | .ok i, none =>
    if i.operation = .skipKey ∨ i.operation = .skipNotKey then some (m.registers.get i.x)
    else none
  | _, _ => none

/-- The next step tests the key, and finds that it is pressed. -/
def Finds (m : Machine) (key : UInt8) : Prop :=
  m.tested? = some key ∧ m.deliver.keypad.isPressed key = true

instance (m : Machine) (key : UInt8) : Decidable (m.Finds key) :=
  inferInstanceAs (Decidable (_ ∧ _))

private theorem pending_step (m : Machine) : m.step.1.pending = [] := by
  rcases hStep : m.step with ⟨m', _ | fault⟩
  · rcases exists_of_step_ok hStep with ⟨i, after, -, -, hLeft⟩
    rw [hLeft]
    rfl
  · rw [eq_deliver_of_step_fault hStep]
    rfl

/-- A step delivers what is under way, and then tests a key if its instruction does. -/
theorem keypad_step (m : Machine) :
    m.step.1.keypad = m.deliver.keypad.replay (m.tested?.map .tested).toList := by
  rcases hStep : m.step with ⟨m', _ | fault⟩
  · rcases exists_of_step_ok hStep with ⟨i, after, hFetch, hDone, hLeft⟩
    rw [fetch_deliver] at hFetch
    have hTested : m.tested? =
        if i.operation = .skipKey ∨ i.operation = .skipNotKey then some (m.registers.get i.x)
        else none := by
      unfold tested?
      rw [hFetch, hStep]
    have hKeypad : m'.keypad = after.keypad := by rw [hLeft]; rfl
    rw [hTested]
    refine hKeypad.trans ?_
    by_cases hOp : i.operation = .skipKey ∨ i.operation = .skipNotKey
    · have hTest := Instruction.keypad_of_execute_test hOp hDone
      rw [if_pos hOp]
      exact hTest
    · have hOther := Instruction.keypad_of_execute_other hOp hDone
      rw [if_neg hOp]
      exact hOther
  · have hTested : m.tested? = none := by
      unfold tested?
      rw [hStep]
      cases m.fetch with
      | ok i => rfl
      | error fault => rfl
    rw [hTested, eq_deliver_of_step_fault hStep]
    rfl

/-- How often the steps of a row find the key pressed. -/
def findings (key : UInt8) (m : Machine) : List Happening → Nat
  | [] => 0
  | .step :: row => (if m.Finds key then 1 else 0) + findings key m.step.1 row
  | h :: row => findings key (h.on m) row

end Machine

/-! ## Histories -/

/-- The changes of the keypad until now, the oldest first, and the messages that are
under way. -/
structure KeyHistory where
  changes : List KeyChange
  waiting : List Message

namespace Happening

/-- The messages that are sent. -/
def messages : List Happening → List Message
  | [] => []
  | send message :: row => message :: messages row
  | _ :: row => messages row

/-- The history, when something has happened to the machine. -/
def enter (h : Happening) (m : Machine) (past : KeyHistory) : KeyHistory :=
  match h with
  | step =>
    ⟨past.changes ++ past.waiting.map .delivered ++ (m.tested?.map .tested).toList, []⟩
  | reset | releaseAll => { past with changes := past.changes ++ [.releasedAll] }
  | send message => { past with waiting := past.waiting ++ [message] }
  | operate e => { past with changes := past.changes ++ [.operated e] }
  | aside _ => past

end Happening

namespace KeyHistory

variable {past : KeyHistory} {k : Keypad} {m : Machine}

/-- The history behind a row of happenings. -/
def behind (past : KeyHistory) (m : Machine) : List Happening → KeyHistory
  | [] => past
  | h :: row => behind (h.enter m past) (h.on m) row

theorem behind_append (past : KeyHistory) (m : Machine) (row more : List Happening) :
    past.behind m (row ++ more) = (past.behind m row).behind (m.behind row) more := by
  induction row generalizing past m with
  | nil => rfl
  | cons h row ih => exact ih (h.enter m past) (h.on m)

/-- The machine has the keypad that comes of the changes, and the messages are those
whose events are under way in it. -/
structure Describes (past : KeyHistory) (k : Keypad) (m : Machine) : Prop where
  keypad : m.keypad = k.replay past.changes
  pending : m.pending = past.waiting.map (·.event)

/-- What is delivered at the next step comes behind all other changes. -/
theorem Describes.deliver (hPast : past.Describes k m) :
    m.deliver.keypad = k.replay (past.changes ++ past.waiting.map .delivered) := by
  show m.pending.foldl Keypad.apply m.keypad = _
  rw [hPast.keypad, hPast.pending, Keypad.replay_append, Keypad.replay_delivered]

theorem Describes.on (hPast : past.Describes k m) (h : Happening) :
    (h.enter m past).Describes k (h.on m) := by
  cases h with
  | step =>
      refine ⟨?_, m.pending_step⟩
      show m.step.1.keypad = k.replay (past.changes ++ _ ++ _)
      rw [m.keypad_step, hPast.deliver, ← Keypad.replay_append]
  | send message =>
      refine ⟨hPast.keypad, ?_⟩
      show m.pending ++ [message.event] = (past.waiting ++ [message]).map (·.event)
      rw [hPast.pending, List.map_append]
      rfl
  | reset | releaseAll =>
      refine ⟨?_, hPast.pending⟩
      show Keypad.released = k.replay (past.changes ++ [.releasedAll])
      rw [Keypad.replay_append]
      rfl
  | operate e =>
      refine ⟨?_, hPast.pending⟩
      show m.keypad.apply e = k.replay (past.changes ++ [.operated e])
      rw [Keypad.replay_append, hPast.keypad]
      rfl
  | aside other => exact ⟨hPast.keypad, hPast.pending⟩

/-- Whatever happens, the history gives the keypad and the queue. -/
theorem Describes.behind (hPast : past.Describes k m) (row : List Happening) :
    (past.behind m row).Describes k (m.behind row) := by
  induction row generalizing past m with
  | nil => exact hPast
  | cons h row ih => exact ih (hPast.on h)

/-! ## Every message once and in order -/

theorem delivered_append (changes more : List KeyChange) :
    delivered (changes ++ more) = delivered changes ++ delivered more := List.filterMap_append

private theorem delivered_map (messages : List Message) :
    delivered (messages.map .delivered) = messages := by
  unfold delivered
  rw [List.filterMap_map]
  exact List.filterMap_some

/-- What happens to a machine delivers what was under way or nothing, and nothing comes
under way but what is sent. -/
theorem delivered_enter (past : KeyHistory) (m : Machine) (h : Happening) :
    delivered (h.enter m past).changes ++ (h.enter m past).waiting =
      delivered past.changes ++ past.waiting ++ Happening.messages [h] := by
  cases h with
  | step =>
      have hTest : delivered (m.tested?.map .tested).toList = [] := by
        cases m.tested? with
        | none => rfl
        | some key => rfl
      show delivered (past.changes ++ past.waiting.map .delivered ++ _) ++ [] = _ ++ []
      rw [delivered_append, delivered_append, delivered_map, hTest, List.append_nil]
  | send message => exact (List.append_assoc _ _ _).symm
  | reset | releaseAll | operate =>
      show delivered (past.changes ++ [_]) ++ past.waiting = _ ++ []
      rw [delivered_append, List.append_nil]
      exact congrArg (· ++ past.waiting) (List.append_nil _)
  | aside => exact (List.append_nil _).symm

end KeyHistory

namespace Happening

private theorem messages_cons (h : Happening) (row : List Happening) :
    messages (h :: row) = messages [h] ++ messages row := by
  cases h with
  | send => rfl
  | step | reset | operate | releaseAll | aside => rfl

end Happening

namespace KeyHistory

variable {past : KeyHistory} {k : Keypad} {m : Machine}

/-- What was delivered and what is still under way are together what was sent. -/
theorem delivered_behind (past : KeyHistory) (m : Machine) (row : List Happening) :
    delivered (past.behind m row).changes ++ (past.behind m row).waiting =
      delivered past.changes ++ past.waiting ++ Happening.messages row := by
  induction row generalizing past m with
  | nil => exact (List.append_nil _).symm
  | cons h row ih =>
      show delivered ((h.enter m past).behind (h.on m) row).changes ++ _ = _
      rw [Happening.messages_cons, ← List.append_assoc, ← delivered_enter]
      exact ih (h.enter m past) (h.on m)

/-- As long as no step is taken, what is sent stays under way. -/
theorem waiting_behind {row : List Happening} (hNoStep : ∀ h ∈ row, h ≠ .step) :
    (past.behind m row).waiting = past.waiting ++ Happening.messages row := by
  induction row generalizing past m with
  | nil => exact (List.append_nil _).symm
  | cons h row ih =>
      rw [List.forall_mem_cons] at hNoStep
      have hFirst : (h.enter m past).waiting = past.waiting ++ Happening.messages [h] := by
        cases h with
        | step => exact absurd rfl hNoStep.1
        | send => rfl
        | reset | operate | releaseAll | aside => exact (List.append_nil _).symm
      have hRest : ((h.enter m past).behind (h.on m) row).waiting =
          (h.enter m past).waiting ++ Happening.messages row := ih hNoStep.2
      rw [Happening.messages_cons, ← List.append_assoc, ← hFirst]
      exact hRest

/-- Under way is what was sent since the latest step. -/
theorem waiting_behind_step {front back : List Happening} (hNoStep : ∀ h ∈ back, h ≠ .step) :
    (past.behind m (front ++ .step :: back)).waiting = Happening.messages back := by
  rw [behind_append]
  exact waiting_behind hNoStep

/-! ## No press is found twice -/

theorem presses_append (key : UInt8) (changes more : List KeyChange) :
    presses key (changes ++ more) = presses key changes + presses key more := List.countP_append

end KeyHistory

namespace Machine

variable {m : Machine} {key : UInt8}

/-- A step that finds a key pressed releases it, so that a press of it is used up. -/
theorem pressed_step_le (m : Machine) (key : UInt8) :
    (if m.Finds key then 1 else 0) + m.step.1.keypad.pressed key ≤
      m.deliver.keypad.pressed key := by
  rw [m.keypad_step]
  by_cases hFinds : m.Finds key
  · have hPressed : m.deliver.keypad.pressed key = 1 := by
      unfold Keypad.pressed
      rw [hFinds.2]
      rfl
    have hReleased : (m.deliver.keypad.replay (m.tested?.map .tested).toList).pressed key = 0 := by
      have hReplay : m.deliver.keypad.replay (m.tested?.map .tested).toList =
          m.deliver.keypad.apply (.release key) := by
        rw [hFinds.1]
        exact if_pos hFinds.2
      rw [hReplay, Keypad.pressed_release]
    rw [if_pos hFinds]
    omega
  · have hLess := m.deliver.keypad.pressed_replay_le (m.tested?.map .tested).toList key
    have hNoPress : presses key (m.tested?.map .tested).toList = 0 := by
      cases m.tested? with
      | none => rfl
      | some other => rfl
    rw [if_neg hFinds]
    omega

/-- What happens to a machine uses up as many presses as it finds. -/
theorem findings_cons_le {past : KeyHistory} {k : Keypad} (hPast : past.Describes k m)
    (h : Happening) (key : UInt8) :
    findings key m [h] + (h.on m).keypad.pressed key + presses key past.changes ≤
      m.keypad.pressed key + presses key (h.enter m past).changes := by
  cases h with
  | step =>
      have hStep := m.pressed_step_le key
      have hDelivered := m.keypad.pressed_replay_le (past.waiting.map .delivered) key
      rw [Keypad.replay_delivered, ← hPast.pending] at hDelivered
      have hDelivered' : m.deliver.keypad.pressed key ≤
          m.keypad.pressed key + presses key (past.waiting.map .delivered) := hDelivered
      show _ + 0 + m.step.1.keypad.pressed key + presses key past.changes ≤
        _ + presses key (past.changes ++ past.waiting.map .delivered ++ _)
      rw [KeyHistory.presses_append, KeyHistory.presses_append]
      omega
  | operate e =>
      have hChange := m.keypad.pressed_replay_le [.operated e] key
      show 0 + ((m.keypad.replay [.operated e]).pressed key) + presses key past.changes ≤
        _ + presses key (past.changes ++ [.operated e])
      rw [KeyHistory.presses_append]
      omega
  | reset | releaseAll =>
      show 0 + Keypad.released.pressed key + presses key past.changes ≤
        _ + presses key (past.changes ++ [.releasedAll])
      rw [KeyHistory.presses_append, Keypad.pressed_released]
      omega
  | send | aside =>
      show 0 + m.keypad.pressed key + presses key past.changes ≤ _ + presses key past.changes
      omega

theorem findings_behind_le {past : KeyHistory} {k : Keypad} (hPast : past.Describes k m)
    (row : List Happening) (key : UInt8) :
    findings key m row + (m.behind row).keypad.pressed key + presses key past.changes ≤
      m.keypad.pressed key + presses key (past.behind m row).changes := by
  induction row generalizing past m with
  | nil =>
      show 0 + m.keypad.pressed key + presses key past.changes ≤ _ + presses key past.changes
      omega
  | cons h row ih =>
      have hFirst := findings_cons_le hPast h key
      have hRest := ih (hPast.on h)
      have hSum : findings key m (h :: row) = findings key m [h] + findings key (h.on m) row := by
        cases h with
        | step => rfl
        | reset | send | operate | releaseAll | aside => exact (Nat.zero_add _).symm
      show _ + ((h.on m).behind row).keypad.pressed key + _ ≤
        _ + presses key ((h.enter m past).behind (h.on m) row).changes
      omega

end Machine

/-! ## Events that are sent during a step -/

/-- The queue is emptied into the keypad, one event after the other, while messages are
sent. This stops when the queue is found empty, and what is sent later is left in the
queue. -/
inductive Drains : Keypad → List KeyEvent → List Message → Keypad → List KeyEvent → Prop where
  | stop (k : Keypad) (late : List Message) : Drains k [] late k (late.map (·.event))
  | take {k last : Keypad} {e : KeyEvent} {queue left : List KeyEvent} {sent : List Message}
      (hRest : Drains (k.apply e) queue sent last left) : Drains k (e :: queue) sent last left
  | send {k last : Keypad} {message : Message} {queue left : List KeyEvent} {sent : List Message}
      (hRest : Drains k (queue ++ [message.event]) sent last left) :
      Drains k queue (message :: sent) last left

/-- Messages that are sent meanwhile are either taken out as those in front of them are,
or all of them are left. -/
theorem Drains.exists_early {k last : Keypad} {queue left : List KeyEvent} {sent : List Message}
    (hDrains : Drains k queue sent last left) :
    ∃ early late, sent = early ++ late ∧
      last = (queue ++ early.map (·.event)).foldl Keypad.apply k ∧
      left = late.map (·.event) := by
  induction hDrains with
  | stop k late => exact ⟨[], late, rfl, rfl, rfl⟩
  | take _ ih => exact ih
  | @send k last message queue left sent _ ih =>
      rcases ih with ⟨early, late, hSent, hLast, hLeft⟩
      refine ⟨message :: early, late, congrArg (message :: ·) hSent, ?_, hLeft⟩
      rw [hLast, List.append_assoc]
      rfl

namespace Machine

variable {m : Machine}

private theorem behind_sends (m : Machine) (messages : List Message) :
    m.behind (messages.map .send) =
      { m with pending := m.pending ++ messages.map (·.event) } := by
  induction messages generalizing m with
  | nil =>
      show m = { m with pending := m.pending ++ [] }
      rw [List.append_nil]
  | cons message messages ih =>
      show (m.send message.event).behind (messages.map .send) = _
      rw [ih, List.map_cons, ← List.singleton_append, ← List.append_assoc]
      rfl

/-- Messages that are sent while a step empties the queue could as well have been sent
in front of the step or behind it. -/
theorem exists_rows_of_drains {sent : List Message} {k : Keypad} {left : List KeyEvent}
    (hDrains : Drains m.keypad m.pending sent k left) :
    ∃ early late, sent = early ++ late ∧ k = (m.behind (early.map .send)).deliver.keypad ∧
      left = (m.behind (early.map .send ++ .step :: late.map .send)).pending := by
  rcases hDrains.exists_early with ⟨early, late, hSent, hLast, hLeft⟩
  refine ⟨early, late, hSent, ?_, ?_⟩
  · rw [behind_sends]
    exact hLast
  · rw [behind_append]
    show left = ((m.behind (early.map .send)).step.1.behind (late.map .send)).pending
    rw [behind_sends, pending_step]
    exact hLeft

/-! ## All together -/

/-- What a row of happenings does to the keypad of a machine in which messages are under
way. -/
def keyHistory (m : Machine) (waiting : List Message) (row : List Happening) : KeyHistory :=
  KeyHistory.behind ⟨[], waiting⟩ m row

/-- Behind any row of happenings, the instruction of the next step is executed with the
keypad that comes of replaying the history and then what is under way. What was
delivered and what is under way are together what was sent, in order, and under way is
only what was sent since the latest step. Events of keys that do not exist have no
effect. If no key was pressed in the beginning, steps did not find a key pressed more
often than it was pressed. What is sent while a step empties the queue is sent in front
of this step or behind it. -/
theorem keys_delivered_once_in_order {first : Machine} {waiting : List Message}
    (hWaiting : first.pending = waiting.map (·.event)) (row : List Happening) :
    (∀ i, ((first.behind row).deliver.begin i).keypad =
      first.keypad.replay ((first.keyHistory waiting row).changes ++
        (first.keyHistory waiting row).waiting.map .delivered)) ∧
    delivered (first.keyHistory waiting row).changes ++ (first.keyHistory waiting row).waiting =
      waiting ++ Happening.messages row ∧
    (∀ front back, row = front ++ .step :: back → (∀ h ∈ back, h ≠ .step) →
      (first.keyHistory waiting row).waiting = Happening.messages back) ∧
    (∀ (k : Keypad) (e : KeyEvent), 15 < e.key.toNat → k.apply e = k) ∧
    ((∀ key, first.keypad.isPressed key = false) →
      ∀ key, findings key first row ≤ presses key (first.keyHistory waiting row).changes) ∧
    ∀ sent k left, Drains (first.behind row).keypad (first.behind row).pending sent k left →
      ∃ early late, sent = early ++ late ∧
        k = (first.behind (row ++ early.map .send)).deliver.keypad ∧
        left = (first.behind (row ++ (early.map .send ++ .step :: late.map .send))).pending := by
  have hFirst : KeyHistory.Describes ⟨[], waiting⟩ first.keypad first := ⟨rfl, hWaiting⟩
  refine ⟨fun i => (hFirst.behind row).deliver, KeyHistory.delivered_behind _ first row, ?_,
    fun k e => k.apply_of_not_exists, fun hReleased key => ?_, fun sent k left hDrains => ?_⟩
  · rintro front back rfl hNoStep
    exact KeyHistory.waiting_behind_step hNoStep
  · have hBound := findings_behind_le hFirst row key
    have hNone : first.keypad.pressed key = 0 := by
      unfold Keypad.pressed
      rw [hReleased key]
      rfl
    have hEmpty : presses key [] = 0 := rfl
    show findings key first row ≤ presses key (KeyHistory.behind ⟨[], waiting⟩ first row).changes
    omega
  · simp only [behind_append first row]
    exact exists_rows_of_drains hDrains

/-- A machine that tests key 0 twice. -/
def testingTwice : Machine :=
  { Machine.start none 0 with
    memory := memoryOf [0xE0, 0x9E, 0x00, 0xE0, 0xE0, 0x9E]
    pending := [.release 0]
    program := [0xE0, 0x9E, 0x00, 0xE0, 0xE0, 0x9E]
    program_fits := by decide }

theorem keys_delivered_once_in_order_testing :
    testingTwice.pending = [⟨1, .release 0⟩].map Message.event ∧
      delivered (testingTwice.keyHistory [⟨1, .release 0⟩]
        [.send ⟨0, .press 0⟩, .step, .reset, .send ⟨1, .press 16⟩, .step]).changes =
          [⟨1, .release 0⟩, ⟨0, .press 0⟩, ⟨1, .press 16⟩] ∧
      findings 0 testingTwice
          [.send ⟨0, .press 0⟩, .step, .reset, .send ⟨1, .press 16⟩, .step] ≤
        presses 0 (testingTwice.keyHistory [⟨1, .release 0⟩]
          [.send ⟨0, .press 0⟩, .step, .reset, .send ⟨1, .press 16⟩, .step]).changes ∧
      Keypad.released.apply (.press 16) = Keypad.released := by
  have hWaiting : testingTwice.pending = [⟨1, .release 0⟩].map Message.event := rfl
  rcases keys_delivered_once_in_order hWaiting
      [.send ⟨0, .press 0⟩, .step, .reset, .send ⟨1, .press 16⟩, .step] with
    ⟨-, hOnce, hLatest, hNoKey, hFound, -⟩
  have hNothing := hLatest [.send ⟨0, .press 0⟩, .step, .reset, .send ⟨1, .press 16⟩] [] rfl
    (List.forall_mem_nil _)
  rw [hNothing, Happening.messages, List.append_nil] at hOnce
  have hReleased : ∀ key, testingTwice.keypad.isPressed key = false := by
    intro key
    have hNone := Keypad.pressed_released key
    exact Bool.toNat_eq_zero.1 hNone
  exact ⟨hWaiting, hOnce, hFound hReleased 0, hNoKey _ _ (by decide)⟩

end Machine

end Chip8

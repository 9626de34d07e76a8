import Chip8.Machine.Core

/-!
# Changes of the core

An instruction changes the core in place, one part after the other, and it may fail on
the way. What it has changed until then is not undone: a change that fails leaves a core
behind as a change that succeeds does.

This module has the changes that can fail by themselves. Access to a block of memory and
the choice of a key are refused before anything is changed, and access to memory is
noted in the log.

## Main definitions

* `Change`, `Change.on` — a change, and what it does to a core.
* `Change.readBlock`, `Change.writeBlock`, `Change.keyIn`.
* `Core.writeByte` — a single byte.

## Main results

* `on_bind`, `on_bind_eq_ok_iff` — changes one after the other.
* `on_readBlock`, `on_writeBlock`, `on_keyIn` — what is read, written and refused.
* `of_readBlock`, `exists_of_writeBlock` — what it says that a block was read or
  written.
-/

namespace Chip8

/-- A change of the core. What it has changed before it fails stays changed. -/
abbrev Change (α : Type) := ExceptT Fault (StateM Core) α

namespace Change

variable {α β : Type}

/-- The value or the fault of a change, and the core that it leaves behind. -/
def on (a : Change α) (c : Core) : Except Fault α × Core := StateT.run (ExceptT.run a) c

@[simp] theorem on_pure (x : α) (c : Core) : (pure x : Change α).on c = (.ok x, c) := rfl

@[simp] theorem on_throw (fault : Fault) (c : Core) :
    (throw fault : Change α).on c = (.error fault, c) := rfl

@[simp] theorem on_get (c : Core) : (get : Change Core).on c = (.ok c, c) := rfl

@[simp] theorem on_set (c' c : Core) : (set c' : Change PUnit).on c = (.ok (), c') := rfl

@[simp] theorem on_modify (f : Core → Core) (c : Core) :
    (modify f : Change PUnit).on c = (.ok (), f c) := rfl

@[simp] theorem on_liftM (r : Except Fault α) (c : Core) : (liftM r : Change α).on c = (r, c) :=
  rfl

/-- A change that is followed by another ends there if it fails. -/
theorem on_bind (a : Change α) (f : α → Change β) (c : Core) :
    (a >>= f).on c =
      match a.on c with
      | (.ok x, c') => (f x).on c'
      | (.error fault, c') => (.error fault, c') := by
  simp only [on, ExceptT.run_bind, StateT.run_bind]
  rcases StateT.run (ExceptT.run a) c with ⟨r, c'⟩
  cases r with
  | ok x => rfl
  | error fault => rfl

theorem on_bind_of_ok {a : Change α} {c c' : Core} {x : α} (hDone : a.on c = (.ok x, c'))
    (f : α → Change β) : (a >>= f).on c = (f x).on c' := by
  rw [on_bind, hDone]

theorem on_bind_of_error {a : Change α} {c c' : Core} {fault : Fault}
    (hFailed : a.on c = (.error fault, c')) (f : α → Change β) :
    (a >>= f).on c = (.error fault, c') := by
  rw [on_bind, hFailed]

/-- Changes one after the other succeed if all of them do. -/
theorem on_bind_eq_ok_iff {a : Change α} {f : α → Change β} {c c'' : Core} {y : β} :
    (a >>= f).on c = (.ok y, c'') ↔
      ∃ x c', a.on c = (.ok x, c') ∧ (f x).on c' = (.ok y, c'') := by
  rw [on_bind]
  constructor
  · intro hDone
    rcases hRun : a.on c with ⟨r, c'⟩
    rw [hRun] at hDone
    cases r with
    | ok x => exact ⟨x, c', rfl, hDone⟩
    | error fault => exact absurd hDone (by simp)
  · rintro ⟨x, c', hDone, hNext⟩
    rw [hDone]
    exact hNext

/-! ## Changes that may be refused -/

/-- Reads a block, and notes the reading. -/
def readBlock (address : UInt16) (length : Nat) : Change (List UInt8) := do
  let bytes ← (← get).memory.block address.toNat length
  modify fun c => { c with log := c.log.addAll address (bytes.map fun _ => .reading) }
  return bytes

/-- Writes a block, and notes the writing. -/
def writeBlock (address : UInt16) (bytes : List UInt8) : Change Unit := do
  let c ← get
  let old ← c.memory.block address.toNat bytes.length
  let memory ← c.memory.store address.toNat bytes
  set { c with memory }
  modify fun c => { c with log := c.log.addAll address (List.zipWith .replacing old bytes) }

/-- The key that a register names. -/
def keyIn (r : Register) : Change UInt8 := do
  let key := (← get).registers.get r
  if key.toNat < 16 then return key else throw (.invalidKey key)

theorem on_readBlock (address : UInt16) (length : Nat) (c : Core) :
    (readBlock address length).on c =
      match c.memory.block address.toNat length with
      | .ok bytes =>
        (.ok bytes, { c with log := c.log.addAll address (bytes.map fun _ => .reading) })
      | .error fault => (.error fault, c) := by
  cases hRead : c.memory.block address.toNat length with
  | ok bytes => simp only [readBlock, on_bind, on_get, on_liftM, hRead, on_modify, on_pure]
  | error fault => simp [readBlock, on_bind, hRead]

/-- A block that is not refused for reading is not refused for writing either. -/
theorem on_writeBlock (address : UInt16) (bytes : List UInt8) (c : Core) :
    (writeBlock address bytes).on c =
      match c.memory.block address.toNat bytes.length with
      | .ok old =>
        (.ok (), { c with
          memory := ⟨Memory.splice address.toNat bytes c.memory.bytes⟩
          log := c.log.addAll address (List.zipWith .replacing old bytes) })
      | .error fault => (.error fault, c) := by
  cases hRead : c.memory.block address.toNat bytes.length with
  | ok old =>
    have hInside : address.toNat + bytes.length ≤ memorySize :=
      (Memory.block_eq_ok_iff.1 hRead).1
    have hStored : c.memory.store address.toNat bytes =
        .ok ⟨Memory.splice address.toNat bytes c.memory.bytes⟩ :=
      Memory.store_eq_ok_iff.2 ⟨hInside, rfl⟩
    simp [writeBlock, on_bind, hRead, hStored]
  | error fault => simp [writeBlock, on_bind, hRead]

/-- A block that is read was inside, and reading it is noted. -/
theorem of_readBlock {address : UInt16} {length : Nat} {bytes : List UInt8} {c after : Core}
    (hDone : (readBlock address length).on c = (.ok bytes, after)) :
    c.memory.block address.toNat length = .ok bytes ∧
      after = { c with log := c.log.addAll address (bytes.map fun _ => .reading) } := by
  rw [on_readBlock] at hDone
  cases hRead : c.memory.block address.toNat length with
  | error fault => simp [hRead] at hDone
  | ok bytes' =>
    rw [hRead] at hDone
    obtain ⟨hBytes, hAfter⟩ := Prod.mk.inj hDone
    obtain rfl := Except.ok.inj hBytes
    exact ⟨rfl, hAfter.symm⟩

/-- A block that is written was inside, and writing it is noted. -/
theorem exists_of_writeBlock {address : UInt16} {bytes : List UInt8} {c after : Core}
    (hDone : (writeBlock address bytes).on c = (.ok (), after)) :
    ∃ old, c.memory.block address.toNat bytes.length = .ok old ∧ after = { c with
      memory := ⟨Memory.splice address.toNat bytes c.memory.bytes⟩
      log := c.log.addAll address (List.zipWith .replacing old bytes) } := by
  rw [on_writeBlock] at hDone
  cases hRead : c.memory.block address.toNat bytes.length with
  | error fault => simp [hRead] at hDone
  | ok old =>
    rw [hRead] at hDone
    exact ⟨old, rfl, (Prod.mk.inj hDone).2.symm⟩

theorem on_keyIn (r : Register) (c : Core) :
    (keyIn r).on c =
      (if (c.registers.get r).toNat < 16 then .ok (c.registers.get r)
        else .error (.invalidKey (c.registers.get r)), c) := by
  by_cases hKey : (c.registers.get r).toNat < 16
  · simp [keyIn, on_bind, hKey]
  · simp [keyIn, on_bind, hKey]

end Change

/-- The core with another byte at an address, which has noted the writing. -/
def Core.writeByte (c : Core) (address : UInt16) (byte : UInt8) : Except Fault Core :=
  match (Change.writeBlock address [byte]).on c with
  | (.ok (), c') => .ok c'
  | (.error fault, _) => .error fault

end Chip8

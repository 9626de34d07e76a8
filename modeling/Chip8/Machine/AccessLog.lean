import Chip8.Machine.Registers
import Std.Data.ExtTreeMap

/-!
# What a run touched

While instructions are executed, a log keeps which bytes they read and wrote as data,
which registers they changed, and whether they drew. A byte is modified if some write
replaced it by a different one.

## Main definitions

* `Access`, `Access.union` — how a byte was accessed.
* `AccessLog`, `AccessLog.get`, `AccessLog.add` — the accesses to memory.
* `AccessLog.noteRegisters`, `AccessLog.noteDrawing` — registers and screen.

## Main results

* `get_add`, `get_addAll` — an access is added to those to the same byte.
* `isChanged_noteRegisters` — a register counts as changed from the first change on.
-/

namespace Chip8

/-- How a byte of memory was accessed. -/
structure Access where
  read : Bool
  written : Bool
  modified : Bool
  deriving DecidableEq, Repr

namespace Access

/-- No access. -/
def none : Access := ⟨false, false, false⟩

/-- Reading. -/
def reading : Access := ⟨true, false, false⟩

/-- Writing, without a word on what was written. -/
def writing : Access := ⟨false, true, false⟩

/-- Writing one byte over another. -/
def replacing (old new : UInt8) : Access := ⟨false, true, old ≠ new⟩

/-- Two accesses taken together. -/
def union (a b : Access) : Access :=
  ⟨a.read || b.read, a.written || b.written, a.modified || b.modified⟩

/-- Whether there was an access at all. -/
def isAccess (a : Access) : Bool := a.read || a.written

end Access

/-- What was touched since the log was last cleared. -/
structure AccessLog where
  accesses : Std.ExtTreeMap UInt16 Access
  changed : Vector Bool 16
  drawn : Bool
  deriving DecidableEq

namespace AccessLog

/-- Nothing was touched. -/
def empty : AccessLog := ⟨∅, Vector.replicate 16 false, false⟩

/-- How a byte was accessed. -/
def get (l : AccessLog) (address : UInt16) : Access := l.accesses[address]?.getD .none

/-- The log with one more access. -/
def add (l : AccessLog) (address : UInt16) (a : Access) : AccessLog :=
  { l with accesses := l.accesses.insert address ((l.get address).union a) }

/-- The log with an access to each byte from an address on. -/
def addAll (l : AccessLog) (address : UInt16) : List Access → AccessLog
  | [] => l
  | a :: as => (l.add address a).addAll (address + 1) as

/-- The logged accesses in the order of addresses. -/
def toList (l : AccessLog) : List (UInt16 × Access) := l.accesses.toList

/-- The log without its accesses to memory. -/
def forgetAccesses (l : AccessLog) : AccessLog := { l with accesses := ∅ }

/-- Whether a register was changed. -/
def isChanged (l : AccessLog) (r : Register) : Bool := l.changed.get r

/-- The log with the registers that an instruction changed. -/
def noteRegisters (l : AccessLog) (before after : Registers) : AccessLog :=
  { l with changed := Vector.ofFn fun r => l.changed.get r || before.get r != after.get r }

/-- The log with a drawing. -/
def noteDrawing (l : AccessLog) : AccessLog := { l with drawn := true }

@[simp] theorem get_empty (address : UInt16) : empty.get address = .none := by
  simp [empty, get]

/-- An access is added to those to the same byte. -/
theorem get_add (l : AccessLog) (address query : UInt16) (a : Access) :
    (l.add address a).get query =
      if address = query then (l.get query).union a else l.get query := by
  by_cases h : address = query
  · subst h
    simp [get, add]
  · simp [get, add, Std.ExtTreeMap.getElem?_insert, h]

/-- Accesses to bytes that follow each other are added one to each; the addresses must
not run past the largest. -/
theorem get_addAll (l : AccessLog) (address query : UInt16) (as : List Access)
    (hFits : address.toNat + as.length ≤ 65536) :
    (l.addAll address as).get query =
      if address.toNat ≤ query.toNat then
        match as[query.toNat - address.toNat]? with
        | some a => (l.get query).union a
        | none => l.get query
      else l.get query := by
  induction as generalizing l address with
  | nil => simp [addAll]
  | cons a as ih =>
    simp only [List.length_cons] at hFits
    by_cases hLast : as = []
    · subst hLast
      simp only [addAll, get_add]
      by_cases hHere : address = query
      · subst hHere
        simp
      · have : address.toNat ≠ query.toNat := fun h => hHere (UInt16.toNat_inj.1 h)
        by_cases hBefore : address.toNat ≤ query.toNat
        · have : query.toNat - address.toNat ≠ 0 := by omega
          simp [hHere, hBefore, this]
        · simp [hHere, hBefore]
    · have hLeft := List.length_pos_iff.2 hLast
      have hNext : (address + 1).toNat = address.toNat + 1 := by
        rw [UInt16.toNat_add]
        simp only [UInt16.reduceToNat]
        omega
      rw [addAll, ih (l.add address a) (address + 1) (by omega), hNext, get_add]
      by_cases hHere : address = query
      · subst hHere
        have : ¬ address.toNat + 1 ≤ address.toNat := by omega
        simp [this]
      · have : address.toNat ≠ query.toNat := fun h => hHere (UInt16.toNat_inj.1 h)
        by_cases hBefore : address.toNat ≤ query.toNat
        · have hLater : address.toNat + 1 ≤ query.toNat := by omega
          have hPlace : query.toNat - address.toNat = query.toNat - (address.toNat + 1) + 1 := by
            omega
          simp [hHere, hBefore, hLater, hPlace]
        · have : ¬ address.toNat + 1 ≤ query.toNat := by omega
          simp [hHere, hBefore, this]

/-- A register is changed if it was before, or if its values differ now. -/
theorem isChanged_noteRegisters (l : AccessLog) (before after : Registers) (r : Register) :
    (l.noteRegisters before after).isChanged r =
      (l.isChanged r || before.get r != after.get r) := by
  show (Vector.ofFn fun r => l.changed.get r || before.get r != after.get r)[r.val] = _
  simp [isChanged]

end AccessLog

end Chip8

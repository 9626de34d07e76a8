import Chip8.Proofs.Machine.Calls
import Chip8.Proofs.Machine.Failing
import Chip8.Proofs.Machine.Keeping

/-!
# What the log reports

Behind a call that executes instructions, the log tells which bytes they read and wrote
as data, which bytes and registers they changed, and whether they drew. What an
instruction reads or writes is told by its operation, the address pointer and the number
of bytes, without looking at the log.

One instruction adds to the log what it has accessed itself, whatever is in there
already, and leaves alone what it does not add. A row of instructions therefore adds
what at least one of them has, and since the log is cleared before the first one, it
holds nothing else. An instruction that fails adds nothing, so that the way in which a
call ends has no part in this. Nor does the log hold anything of what happens around the
machine during the call, although this has a part in which instructions are executed.

## Main definitions

* `Instruction.Reads`, `Instruction.Writes`, `Instruction.Draws` — what an instruction
  accesses.
* `Machine.Executes` — one of the instructions on the way does something.
* `Machine.Reports` — a log tells exactly what the instructions on the way did.
* `Call.OnlyExecutes`, `Call.first` — calls that execute instructions and nothing else.

## Main results

* `Instruction.notes_of_execute` — what one instruction adds to the log.
* `Machine.holds_after?_iff` — what holds behind a row of steps that can only bring it
  about.
* `Machine.reports_of_after?` — the log behind a row of steps.
* `Call.on_reports` — the log behind a call, and that it misses no difference.
-/

namespace Chip8

/-! ## Accesses to blocks -/

namespace AccessLog

variable {l : AccessLog} {address a : UInt16} {as : List Access} {access : Access}

/-- An access to a block in memory is added at each of its bytes. -/
theorem get_addAll_inside (hFits : address.toNat + as.length ≤ memorySize)
    (hFrom : address.toNat ≤ a.toNat) (hAccess : as[a.toNat - address.toNat]? = some access) :
    (l.addAll address as).get a = (l.get a).union access := by
  rw [get_addAll l address a as (Nat.le_trans hFits (by decide)), if_pos hFrom, hAccess]

/-- No other byte is concerned. -/
theorem get_addAll_outside (hFits : address.toNat + as.length ≤ memorySize)
    (hOutside : ¬ (address.toNat ≤ a.toNat ∧ a.toNat < address.toNat + as.length)) :
    (l.addAll address as).get a = l.get a := by
  rw [get_addAll l address a as (Nat.le_trans hFits (by decide))]
  by_cases hFrom : address.toNat ≤ a.toNat
  · rw [if_pos hFrom, List.getElem?_eq_none (by omega)]
  · rw [if_neg hFrom]

private theorem get_noteRegisters (l : AccessLog) (before after : Registers) (a : UInt16) :
    (l.noteRegisters before after).get a = l.get a := by
  simp only [get, noteRegisters]

private theorem drawn_noteRegisters (l : AccessLog) (before after : Registers) :
    (l.noteRegisters before after).drawn = l.drawn := by
  simp only [noteRegisters]

private theorem isChanged_empty (r : Register) : empty.isChanged r = false := by
  show (Vector.replicate 16 false)[r.val] = false
  simp

end AccessLog

namespace Change

variable {address : UInt16} {length : Nat} {bytes : List UInt8} {c after : Core}

/-- Reading a block is noted for each byte of the block, and changes no byte. -/
theorem log_of_readBlock (hDone : (readBlock address length).on c = (.ok bytes, after))
    (a : UInt16) :
    after.memory = c.memory ∧ after.log.get a =
      if address.toNat ≤ a.toNat ∧ a.toNat < address.toNat + length then
        (c.log.get a).union .reading
      else c.log.get a := by
  rcases of_readBlock hDone with ⟨hRead, rfl⟩
  have hLength : (bytes.map fun _ => Access.reading).length = length := by
    rw [List.length_map, Memory.length_of_block_eq_ok hRead]
  have hFits : address.toNat + (bytes.map fun _ => Access.reading).length ≤ memorySize := by
    rw [hLength]
    exact (Memory.block_eq_ok_iff.1 hRead).1
  refine ⟨rfl, ?_⟩
  by_cases hBlock : address.toNat ≤ a.toNat ∧ a.toNat < address.toNat + length
  · have hPlace : a.toNat - address.toNat < bytes.length := by
      rw [List.length_map] at hLength
      omega
    rw [if_pos hBlock]
    refine AccessLog.get_addAll_inside hFits hBlock.1 ?_
    rw [List.getElem?_map, List.getElem?_eq_getElem hPlace]
    rfl
  · rw [if_neg hBlock]
    exact AccessLog.get_addAll_outside hFits (by rwa [hLength])

/-- Writing a block is noted for each byte of the block, together with whether the byte
is another one now. The bytes outside the block stay as they are, and nothing is noted
of them. -/
theorem log_of_writeBlock (hDone : (writeBlock address bytes).on c = (.ok (), after))
    (a : UInt16) :
    if address.toNat ≤ a.toNat ∧ a.toNat < address.toNat + bytes.length then
      after.log.get a = (c.log.get a).union
        ⟨false, true, after.memory.get? a.toNat ≠ c.memory.get? a.toNat⟩
    else after.log.get a = c.log.get a ∧ after.memory.get? a.toNat = c.memory.get? a.toNat := by
  rcases exists_of_writeBlock hDone with ⟨old, hRead, rfl⟩
  have hInside : address.toNat + bytes.length ≤ memorySize :=
    (Memory.block_eq_ok_iff.1 hRead).1
  have hOldLength : old.length = bytes.length := Memory.length_of_block_eq_ok hRead
  have hLength : (List.zipWith Access.replacing old bytes).length = bytes.length := by
    rw [List.length_zipWith, hOldLength, Nat.min_self]
  have hFits : address.toNat + (List.zipWith Access.replacing old bytes).length ≤
      memorySize := by
    rwa [hLength]
  have hStored : c.memory.store address.toNat bytes =
      .ok ⟨Memory.splice address.toNat bytes c.memory.bytes⟩ :=
    Memory.store_eq_ok_iff.2 ⟨hInside, rfl⟩
  have hNew := Memory.get?_of_store_eq_ok hStored a.toNat
  by_cases hBlock : address.toNat ≤ a.toNat ∧ a.toNat < address.toNat + bytes.length
  · have hPlace : a.toNat - address.toNat < bytes.length := by omega
    have hOldPlace : a.toNat - address.toNat < old.length := by omega
    have hOld : c.memory.get? a.toNat = some old[a.toNat - address.toNat] := by
      have hByte := Memory.getElem?_of_block_eq_ok hRead hPlace
      rw [Nat.add_sub_cancel' hBlock.1, List.getElem?_eq_getElem hOldPlace] at hByte
      exact hByte.symm
    rw [if_pos ⟨hBlock.1, hPlace⟩, List.getElem?_eq_getElem hPlace] at hNew
    rw [if_pos hBlock]
    have hAccess : (List.zipWith Access.replacing old bytes)[a.toNat - address.toNat]? =
        some (.replacing old[a.toNat - address.toNat] bytes[a.toNat - address.toNat]) := by
      rw [List.getElem?_eq_getElem (by omega), List.getElem_zipWith]
    refine (AccessLog.get_addAll_inside hFits hBlock.1 hAccess).trans (congrArg _ ?_)
    simp [Access.replacing, hNew, hOld, @eq_comm _ old[a.toNat - address.toNat]]
  · have hPlace : ¬ (address.toNat ≤ a.toNat ∧ a.toNat - address.toNat < bytes.length) :=
      fun hBoth => hBlock ⟨hBoth.1, by omega⟩
    rw [if_neg hPlace] at hNew
    rw [if_neg hBlock]
    exact ⟨AccessLog.get_addAll_outside hFits (by rwa [hLength]), hNew⟩

end Change

/-! ## What an instruction accesses -/

namespace Component

variable {o : Operation}

/-- An operation that accesses no block of memory leaves the memory and its accesses
alone. -/
theorem notMem_touched_of_no_block (hRead : ¬ (o = .draw ∨ o = .loadRegisters))
    (hWrite : ¬ (o = .decimalDigits ∨ o = .storeRegisters)) :
    memory ∉ o.touched ∧ accesses ∉ o.touched := by
  revert hRead hWrite
  cases o <;> decide

private theorem screen_mem_touched : screen ∈ o.touched ↔ o = .clearScreen ∨ o = .draw := by
  cases o <;> decide

private theorem drawn_mem_touched : drawn ∈ o.touched ↔ o = .clearScreen ∨ o = .draw := by
  cases o <;> decide

end Component

namespace Instruction

/-- The byte is in the block that an instruction accesses at the address pointer. -/
def Covers (i : Instruction) (c : Core) (a : UInt16) : Prop :=
  ∃ length, i.blockLength? = some length ∧
    c.index.toNat ≤ a.toNat ∧ a.toNat < c.index.toNat + length

/-- The instruction reads the byte as data: it is a sprite row, or a register is loaded
from it. -/
def Reads (i : Instruction) (c : Core) (a : UInt16) : Prop :=
  (i.operation = .draw ∨ i.operation = .loadRegisters) ∧ i.Covers c a

/-- The instruction writes the byte. -/
def Writes (i : Instruction) (c : Core) (a : UInt16) : Prop :=
  (i.operation = .decimalDigits ∨ i.operation = .storeRegisters) ∧ i.Covers c a

/-- The instruction clears the screen or draws a sprite. -/
def Draws (i : Instruction) : Prop := i.operation = .clearScreen ∨ i.operation = .draw

variable {i : Instruction} {c after : Core}

private theorem covers_iff {length : Nat} (hLength : i.blockLength? = some length) {a : UInt16} :
    i.Covers c a ↔ c.index.toNat ≤ a.toNat ∧ a.toNat < c.index.toNat + length := by
  simp [Covers, hLength]

open Change

/-- An instruction that reads a block does nothing to the memory and its accesses but
that. -/
theorem exists_readBlock_of_execute
    (hRead : i.operation = .draw ∨ i.operation = .loadRegisters)
    (hDone : i.execute.on c = (.ok (), after)) :
    ∃ length bytes between, i.blockLength? = some length ∧
      (readBlock c.index length).on c = (.ok bytes, between) ∧
      after.memory = between.memory ∧ after.log.accesses = between.log.accesses := by
  unfold execute at hDone
  rw [on_bind_of_ok (on_get c)] at hDone
  rcases hRead with hOp | hOp
  · simp only [hOp] at hDone
    rcases on_bind_eq_ok_iff.1 hDone with ⟨rows, between, hBlock, hRest⟩
    have hAfter := (Prod.mk.inj hRest).2
    exact ⟨i.n, rows, between, by rw [blockLength?, hOp], hBlock, by rw [← hAfter]; rfl,
      by rw [← hAfter]; rfl⟩
  · simp only [hOp] at hDone
    rcases on_bind_eq_ok_iff.1 hDone with ⟨values, between, hBlock, hRest⟩
    have hAfter := (Prod.mk.inj hRest).2
    exact ⟨i.x.val + 1, values, between, by rw [blockLength?, hOp], hBlock,
      by rw [← hAfter], by rw [← hAfter]⟩

/-- An instruction that writes a block does nothing to the memory and its accesses but
that. -/
theorem exists_writeBlock_of_execute
    (hWrite : i.operation = .decimalDigits ∨ i.operation = .storeRegisters)
    (hDone : i.execute.on c = (.ok (), after)) :
    ∃ bytes between, i.blockLength? = some bytes.length ∧
      (writeBlock c.index bytes).on c = (.ok (), between) ∧
      after.memory = between.memory ∧ after.log.accesses = between.log.accesses := by
  unfold execute at hDone
  rw [on_bind_of_ok (on_get c)] at hDone
  rcases hWrite with hOp | hOp
  · simp only [hOp] at hDone
    exact ⟨_, after, by rw [blockLength?, hOp]; rfl, hDone, rfl, rfl⟩
  · simp only [hOp] at hDone
    rcases on_bind_eq_ok_iff.1 hDone with ⟨_, between, hBlock, hRest⟩
    have hAfter := (Prod.mk.inj hRest).2
    exact ⟨_, between, by rw [blockLength?, hOp, Registers.length_through], hBlock,
      by rw [← hAfter], by rw [← hAfter]⟩

/-- The registers that have changed are noted around an instruction, and not by it. -/
theorem keeps_changed_execute (i : Instruction) : Keeps (·.log.changed) i.execute :=
  keeps_execute fun component _ => by cases component <;> exact fun _ _ => rfl

/-- What an instruction adds to the log: its own accesses to the byte, and whether it
has drawn. It changes no byte that it does not write, and no pixel unless it draws. -/
structure Notes (i : Instruction) (c after : Core) : Prop where
  read (a : UInt16) : (after.log.get a).read = true ↔ (c.log.get a).read = true ∨ i.Reads c a
  written (a : UInt16) :
    (after.log.get a).written = true ↔ (c.log.get a).written = true ∨ i.Writes c a
  modified (a : UInt16) :
    (after.log.get a).modified = true ↔ (c.log.get a).modified = true ∨
      i.Writes c a ∧ after.memory.get? a.toNat ≠ c.memory.get? a.toNat
  kept (a : UInt16) (hUnwritten : ¬ i.Writes c a) :
    after.memory.get? a.toNat = c.memory.get? a.toNat
  drawn : after.log.drawn = true ↔ c.log.drawn = true ∨ i.Draws
  shown (hUndrawn : ¬ i.Draws) : after.screen = c.screen

/-- The three ways in which an instruction accesses a byte: it reads the byte, it writes
the byte, or it does neither. -/
theorem access_of_execute (hDone : i.execute.on c = (.ok (), after)) (a : UInt16) :
    (i.Reads c a ∧ ¬ i.Writes c a ∧ after.log.get a = (c.log.get a).union .reading ∧
      after.memory.get? a.toNat = c.memory.get? a.toNat) ∨
    (¬ i.Reads c a ∧ i.Writes c a ∧ after.log.get a = (c.log.get a).union
      ⟨false, true, after.memory.get? a.toNat ≠ c.memory.get? a.toNat⟩) ∨
    (¬ i.Reads c a ∧ ¬ i.Writes c a ∧ after.log.get a = c.log.get a ∧
      after.memory.get? a.toNat = c.memory.get? a.toNat) := by
  by_cases hRead : i.operation = .draw ∨ i.operation = .loadRegisters
  · have hNoWrite : ¬ i.Writes c a := by
      rintro ⟨hWrite, -⟩
      rcases hRead with hOp | hOp <;> simp [hOp] at hWrite
    rcases exists_readBlock_of_execute hRead hDone with
      ⟨length, bytes, between, hLength, hBlock, hMemory, hAccesses⟩
    rcases log_of_readBlock hBlock a with ⟨hSame, hLog⟩
    have hGet : after.log.get a = between.log.get a := by
      simp only [AccessLog.get, hAccesses]
    rw [hMemory, hSame, hGet, hLog]
    by_cases hCovers : i.Covers c a
    · rw [if_pos ((covers_iff hLength).1 hCovers)]
      exact .inl ⟨⟨hRead, hCovers⟩, hNoWrite, rfl, rfl⟩
    · rw [if_neg (mt (covers_iff hLength).2 hCovers)]
      exact .inr (.inr ⟨fun hReads => hCovers hReads.2, hNoWrite, rfl, rfl⟩)
  · have hNoRead : ¬ i.Reads c a := fun hReads => hRead hReads.1
    by_cases hWrite : i.operation = .decimalDigits ∨ i.operation = .storeRegisters
    · rcases exists_writeBlock_of_execute hWrite hDone with
        ⟨bytes, between, hLength, hBlock, hMemory, hAccesses⟩
      have hLog := log_of_writeBlock hBlock a
      have hGet : after.log.get a = between.log.get a := by
        simp only [AccessLog.get, hAccesses]
      rw [hMemory, hGet]
      by_cases hCovers : i.Covers c a
      · rw [if_pos ((covers_iff hLength).1 hCovers)] at hLog
        exact .inr (.inl ⟨hNoRead, ⟨hWrite, hCovers⟩, hLog⟩)
      · rw [if_neg (mt (covers_iff hLength).2 hCovers)] at hLog
        exact .inr (.inr ⟨hNoRead, fun hWrites => hCovers hWrites.2, hLog⟩)
    · have hUntouched : .memory ∉ i.operation.touched ∧ .accesses ∉ i.operation.touched :=
        Component.notMem_touched_of_no_block hRead hWrite
      have hMemory : after.memory = c.memory := by
        simpa only [hDone] using i.leaves.memory hUntouched.1 c
      have hAccesses : after.log.accesses = c.log.accesses := by
        simpa only [hDone] using i.leaves.accesses hUntouched.2 c
      rw [hMemory, AccessLog.get, AccessLog.get, hAccesses]
      exact .inr (.inr ⟨hNoRead, fun hWrites => hWrite hWrites.1, rfl, rfl⟩)

/-- An instruction that draws says so. -/
theorem drawn_of_execute (hDraws : i.Draws) (hDone : i.execute.on c = (.ok (), after)) :
    after.log.drawn = true := by
  unfold execute at hDone
  rw [on_bind_of_ok (on_get c)] at hDone
  rcases hDraws with hOp | hOp
  · simp only [hOp] at hDone
    rw [← (Prod.mk.inj hDone).2]
    rfl
  · simp only [hOp] at hDone
    rcases on_bind_eq_ok_iff.1 hDone with ⟨rows, between, -, hRest⟩
    rw [← (Prod.mk.inj hRest).2]
    rfl

/-- What one instruction adds to the log. -/
theorem notes_of_execute (hDone : i.execute.on c = (.ok (), after)) : i.Notes c after := by
  refine ⟨fun a => ?_, fun a => ?_, fun a => ?_, fun a hUnwritten => ?_, ?_, fun hUndrawn => ?_⟩
  · rcases access_of_execute hDone a with
      ⟨hRead, -, hLog, -⟩ | ⟨hNoRead, -, hLog⟩ | ⟨hNoRead, -, hLog, -⟩ <;>
      simp [*, Access.union, Access.reading]
  · rcases access_of_execute hDone a with
      ⟨-, hNoWrite, hLog, -⟩ | ⟨-, hWrite, hLog⟩ | ⟨-, hNoWrite, hLog, -⟩ <;>
      simp [*, Access.union, Access.reading]
  · rcases access_of_execute hDone a with
      ⟨-, hNoWrite, hLog, -⟩ | ⟨-, hWrite, hLog⟩ | ⟨-, hNoWrite, hLog, -⟩ <;>
      simp [*, Access.union, Access.reading]
  · rcases access_of_execute hDone a with
      ⟨-, -, -, hSame⟩ | ⟨-, hWrite, -⟩ | ⟨-, -, -, hSame⟩
    · exact hSame
    · exact absurd hWrite hUnwritten
    · exact hSame
  · by_cases hDraws : i.Draws
    · simp [drawn_of_execute hDraws hDone, hDraws]
    · have hKept := i.leaves.drawn (mt Component.drawn_mem_touched.1 hDraws) c
      simp only [hDone] at hKept
      simp [hKept, hDraws]
  · simpa only [hDone] using i.leaves.screen (mt Component.screen_mem_touched.1 hUndrawn) c

end Instruction

/-! ## Rows of steps -/

namespace Machine

variable {m m' first last : Machine} {i : Instruction} {n : Nat} {course : Course}
  {happens : Machine → Instruction → Machine → Prop}

/-- What a step adds to the log. Around the instruction, nothing is added but the
registers that it has changed. -/
theorem notes_of_step (hFetch : m.fetch = .ok i) (hStep : m.step = (m', none)) :
    i.Notes m.toCore m'.toCore ∧
      ∀ r, m'.log.isChanged r = true ↔
        m.log.isChanged r = true ∨ m'.registers.get r ≠ m.registers.get r := by
  rcases exists_of_step_of_fetch hFetch hStep with ⟨after, hDone, rfl⟩
  have hNotes := Instruction.notes_of_execute hDone
  have hLog : after.log.changed = m.log.changed := by
    have hKept := i.keeps_changed_execute (m.deliver.begin i).toCore
    rw [hDone] at hKept
    exact hKept
  have hAccesses (a : UInt16) :
      ((m.deliver.begin i).conclude after).log.get a = after.log.get a :=
    AccessLog.get_noteRegisters _ _ _ a
  have hDrawn : ((m.deliver.begin i).conclude after).log.drawn = after.log.drawn :=
    AccessLog.drawn_noteRegisters _ _ _
  refine ⟨⟨fun a => ?_, fun a => ?_, fun a => ?_, hNotes.kept, ?_, hNotes.shown⟩, fun r => ?_⟩
  · rw [hAccesses]
    exact hNotes.read a
  · rw [hAccesses]
    exact hNotes.written a
  · rw [hAccesses]
    exact hNotes.modified a
  · rw [hDrawn]
    exact hNotes.drawn
  · show (after.log.noteRegisters m.registers after.registers).isChanged r = true ↔
      m.log.isChanged r = true ∨ after.registers.get r ≠ m.registers.get r
    rw [AccessLog.isChanged_noteRegisters, AccessLog.isChanged, hLog, Bool.or_eq_true,
      bne_iff_ne, ne_comm]
    rfl

/-- What a step adds to the log does not depend on what happens around the machine in
front of it. -/
theorem notes_of_step_meanwhile {around : Interlude} (hFetch : m.fetch = .ok i)
    (hStep : (m.meanwhile around).step = (m', none)) :
    i.Notes m.toCore m'.toCore ∧
      ∀ r, m'.log.isChanged r = true ↔
        m.log.isChanged r = true ∨ m'.registers.get r ≠ m.registers.get r := by
  have hFetchNow : (m.meanwhile around).fetch = .ok i := hFetch
  have hNotes := notes_of_step hFetchNow hStep
  exact hNotes

/-- Among the first `n` instructions that are executed from a state on there is one of
which something holds, given the state before it and the one behind it. -/
def Executes (first : Machine) (course : Course) (n : Nat)
    (happens : Machine → Instruction → Machine → Prop) : Prop :=
  ∃ k < n, ∃ s i s', first.after? k course = some s ∧ s.fetch = .ok i ∧
    (s.meanwhile (course k)).step = (s', none) ∧ happens s i s'

private theorem executes_succ_iff (hFetch : m.fetch = .ok i)
    (hStep : (m.meanwhile (course 0)).step = (m', none)) :
    m.Executes course (n + 1) happens ↔
      happens m i m' ∨ m'.Executes (course.drop 1) n happens := by
  have hShift : ∀ k, m.after? (k + 1) course = m'.after? k (course.drop 1) :=
    after?_succ_of_step hStep
  have hCourse : ∀ k, course.drop 1 k = course (k + 1) :=
    fun k => congrArg course (Nat.add_comm 1 k)
  constructor
  · rintro ⟨k, hk, s, j, s', hReached, hFetch', hStep', hHappens⟩
    cases k with
    | zero =>
        obtain rfl : m = s := Option.some.inj hReached
        obtain rfl : i = j := Except.ok.inj (hFetch.symm.trans hFetch')
        obtain rfl : m' = s' := (Prod.mk.inj (hStep.symm.trans hStep')).1
        exact .inl hHappens
    | succ k =>
        rw [← hCourse] at hStep'
        exact .inr ⟨k, Nat.lt_of_succ_lt_succ hk, s, j, s', (hShift k).symm.trans hReached,
          hFetch', hStep', hHappens⟩
  · rintro (hHappens | ⟨k, hk, s, j, s', hReached, hFetch', hStep', hHappens⟩)
    · exact ⟨0, n.succ_pos, m, i, m', rfl, hFetch, hStep, hHappens⟩
    · rw [hCourse] at hStep'
      exact ⟨k + 1, Nat.succ_lt_succ hk, s, j, s', (hShift k).trans hReached, hFetch', hStep',
        hHappens⟩

/-- What holds behind some steps held before them, or one of them has brought it
about. -/
theorem holds_or_executes (holds : Machine → Prop)
    (hOnly : ∀ s around i s', s.fetch = .ok i → (s.meanwhile around).step = (s', none) →
      holds s' → holds s ∨ happens s i s')
    (hLast : first.after? n course = some last) (hHolds : holds last) :
    holds first ∨ first.Executes course n happens := by
  induction n generalizing first course with
  | zero =>
      obtain rfl : first = last := Option.some.inj hLast
      exact .inl hHolds
  | succ n ih =>
      rcases exists_step_of_after?_succ hLast with ⟨m', hStep, hRest⟩
      rcases exists_of_step_ok hStep with ⟨i, after, hFetch, -, -⟩
      have hFetchFirst : first.fetch = .ok i := hFetch
      rw [executes_succ_iff hFetchFirst hStep, ← or_assoc]
      rcases ih hRest with hHeld | hHappens
      · exact .inl (hOnly first _ i m' hFetchFirst hStep hHeld)
      · exact .inr hHappens

/-- What is brought about by some steps and undone by none holds behind a row of steps
exactly if it held before it, or one of the steps has brought it about. -/
theorem holds_after?_iff (holds : Machine → Prop)
    (hIff : ∀ s around i s', s.fetch = .ok i → (s.meanwhile around).step = (s', none) →
      (holds s' ↔ holds s ∨ happens s i s'))
    (hLast : first.after? n course = some last) :
    holds last ↔ holds first ∨ first.Executes course n happens := by
  have hOnly : ∀ s around i s', s.fetch = .ok i → (s.meanwhile around).step = (s', none) →
      holds s' → holds s ∨ happens s i s' :=
    fun s around i s' hFetch hStep => (hIff s around i s' hFetch hStep).1
  refine ⟨holds_or_executes holds hOnly hLast, ?_⟩
  clear hOnly
  induction n generalizing first course with
  | zero =>
      obtain rfl : first = last := Option.some.inj hLast
      rintro (hHeld | ⟨k, hk, -⟩)
      · exact hHeld
      · exact absurd hk (Nat.not_lt_zero k)
  | succ n ih =>
      rcases exists_step_of_after?_succ hLast with ⟨m', hStep, hRest⟩
      rcases exists_of_step_ok hStep with ⟨i, after, hFetch, -, -⟩
      have hFetchFirst : first.fetch = .ok i := hFetch
      rw [executes_succ_iff hFetchFirst hStep, ← or_assoc, ← hIff first _ i m' hFetchFirst hStep]
      exact ih hRest

/-- What is not the same behind some steps was made so by one of them. -/
theorem executes_of_ne {γ : Type} (view : Machine → γ) (hLast : first.after? n course = some last)
    (hDiffers : view last ≠ view first) :
    first.Executes course n fun s _ s' => view s' ≠ view s := by
  have hOnly : ∀ s around i s', s.fetch = .ok i → (s.meanwhile around).step = (s', none) →
      view s' ≠ view first → view s ≠ view first ∨ view s' ≠ view s := by
    intro s around i s' _ _ hNew
    by_cases hSame : view s = view first
    · exact .inr (hSame ▸ hNew)
    · exact .inl hSame
  have hSplit := holds_or_executes (fun s => view s ≠ view first) hOnly hLast hDiffers
  exact hSplit.resolve_left fun hSame => hSame rfl

/-- A log tells exactly what the first `n` instructions did that were executed from a
state on. -/
structure Reports (first : Machine) (course : Course) (n : Nat) (l : AccessLog) : Prop where
  read (a : UInt16) :
    (l.get a).read = true ↔ first.Executes course n fun s i _ => i.Reads s.toCore a
  written (a : UInt16) :
    (l.get a).written = true ↔ first.Executes course n fun s i _ => i.Writes s.toCore a
  modified (a : UInt16) :
    (l.get a).modified = true ↔ first.Executes course n fun s i s' =>
      i.Writes s.toCore a ∧ s'.memory.get? a.toNat ≠ s.memory.get? a.toNat
  changed (r : Register) :
    l.isChanged r = true ↔ first.Executes course n fun s _ s' =>
      s'.registers.get r ≠ s.registers.get r
  drawn : l.drawn = true ↔ first.Executes course n fun _ i _ => i.Draws

/-- The log behind a row of steps, if it was empty before. -/
theorem reports_of_after? (hEmpty : first.log = .empty)
    (hLast : first.after? n course = some last) : first.Reports course n last.log := by
  -- Nothing that the log can tell is told by the empty one.
  refine ⟨fun a => ?_, fun a => ?_, fun a => ?_, fun r => ?_, ?_⟩
  · have hIff := holds_after?_iff (fun s => (s.log.get a).read = true)
      (fun s _ i s' hFetch hStep => (notes_of_step_meanwhile hFetch hStep).1.read a) hLast
    simpa [hEmpty, Access.none] using hIff
  · have hIff := holds_after?_iff (fun s => (s.log.get a).written = true)
      (fun s _ i s' hFetch hStep => (notes_of_step_meanwhile hFetch hStep).1.written a) hLast
    simpa [hEmpty, Access.none] using hIff
  · have hIff := holds_after?_iff (fun s => (s.log.get a).modified = true)
      (fun s _ i s' hFetch hStep => (notes_of_step_meanwhile hFetch hStep).1.modified a) hLast
    simpa [hEmpty, Access.none] using hIff
  · have hIff := holds_after?_iff (fun s => s.log.isChanged r = true)
      (fun s _ i s' hFetch hStep => (notes_of_step_meanwhile hFetch hStep).2 r) hLast
    simpa [hEmpty, AccessLog.isChanged_empty] using hIff
  · have hIff := holds_after?_iff (fun s => s.log.drawn = true)
      (fun s _ i s' hFetch hStep => (notes_of_step_meanwhile hFetch hStep).1.drawn) hLast
    simpa [hEmpty, AccessLog.empty] using hIff

/-- A log that tells exactly what was done misses no difference. -/
theorem Reports.of_ne {l : AccessLog} (hReports : first.Reports course n l)
    (hLast : first.after? n course = some last) :
    (∀ a : UInt16, last.memory.get? a.toNat ≠ first.memory.get? a.toNat →
      (l.get a).modified = true) ∧
    (∀ r, last.registers.get r ≠ first.registers.get r → l.isChanged r = true) ∧
    ∀ x y, last.screen.get? x y ≠ first.screen.get? x y → l.drawn = true := by
  refine ⟨fun a hDiffers => ?_, fun r hDiffers => ?_, fun x y hDiffers => ?_⟩
  · rcases executes_of_ne (fun s => s.memory.get? a.toNat) hLast hDiffers with
      ⟨k, hk, s, i, s', hReached, hFetch, hStep, hChanged⟩
    have hWrites : i.Writes s.toCore a := by
      refine Classical.byContradiction fun hUnwritten => ?_
      exact hChanged ((notes_of_step_meanwhile hFetch hStep).1.kept a hUnwritten)
    exact (hReports.modified a).2
      ⟨k, hk, s, i, s', hReached, hFetch, hStep, hWrites, hChanged⟩
  · exact (hReports.changed r).2
      (executes_of_ne (fun s => s.registers.get r) hLast hDiffers)
  · rcases executes_of_ne (fun s => s.screen.get? x y) hLast hDiffers with
      ⟨k, hk, s, i, s', hReached, hFetch, hStep, hChanged⟩
    have hDraws : i.Draws := by
      refine Classical.byContradiction fun hUndrawn => ?_
      have hShown := (notes_of_step_meanwhile hFetch hStep).1.shown hUndrawn
      exact hChanged (congrArg (·.get? x y) hShown)
    exact hReports.drawn.2 ⟨k, hk, s, i, s', hReached, hFetch, hStep, hDraws⟩

end Machine

/-! ## Calls -/

namespace Call

open Machine

variable {c : Call} {m last : Machine} {n budget : Nat}

/-- The call executes instructions, and it does nothing else to the machine. -/
def OnlyExecutes (c : Call) (m : Machine) : Prop :=
  match c with
  | stepIn | stepOver | runWithLimit _ => True
  | stepOut => m.stack ≠ []
  | runWhile tripwire => ∃ test, tripwire = .ofTest test
  | reset | load _ => False

/-- The machine when a call begins to execute instructions: the log is cleared, and a
run also forgets why the run before stopped. -/
def first (c : Call) (m : Machine) : Machine :=
  match c with
  | stepIn => { m with log := .empty }
  | _ => m.ready

theorem first_eq (c : Call) (m : Machine) :
    ∃ pause, c.first m = { m with log := .empty, pause } := by
  cases c with
  | stepIn => exact ⟨m.pause, rfl⟩
  | stepOver | stepOut | runWhile | runWithLimit | reset | load => exact ⟨.unsuccessful, rfl⟩

/-- A call that only executes instructions goes through a row of states. -/
theorem exists_endsAt_on (hOnly : c.OnlyExecutes m) (budget : Nat) (course : Course) :
    ∃ n last, (c.first m).after? n course = some last ∧ EndsAt last (c.on budget m course) := by
  cases c with
  | stepIn =>
      rcases hStep : (m.meanwhile (course 0)).stepIn with ⟨m', _ | fault⟩
      · rw [on, hStep]
        have hFirst : (({ m with log := .empty } : Machine).meanwhile (course 0)).step =
            (m', none) := hStep
        exact ⟨1, m', after?_succ_of_step hFirst 0, .paused m'.pause⟩
      · rw [on, hStep]
        have hFirst : (({ m with log := .empty } : Machine).meanwhile (course 0)).step =
            (m', some fault) := hStep
        exact ⟨0, _, rfl, .fault hFirst⟩
  | stepOver => exact exists_endsAt_of_runWhile _ course budget m
  | stepOut =>
      rw [on, Machine.stepOut, if_neg hOnly]
      exact exists_endsAt_of_runWhile _ course budget m
  | runWhile tripwire =>
      rcases hOnly with ⟨test, rfl⟩
      rw [on, Tripwire.ofTest, ← runWhile_eq_runWhileActing]
      exact exists_endsAt_of_runWhile test course budget m
  | runWithLimit limit => exact exists_endsAt_of_runWhile _ course _ m
  | reset | load => exact hOnly.elim

end Call

namespace Machine.EndsAt

variable {last : Machine} {run : Run}

/-- Nothing happens to the core behind the last step but that key events are delivered,
where a further step fails. -/
theorem machine_eq (hEnds : EndsAt last run) :
    ∃ pause keypad pending clock,
      run.machine = { last with pause, keypad, pending, clock } := by
  cases hEnds with
  | paused pause => exact ⟨pause, last.keypad, last.pending, last.clock, rfl⟩
  | fault hStep =>
      have hBack := eq_deliver_of_step_fault hStep
      exact ⟨last.pause, _, _, _, hBack⟩
  | unfinished => exact ⟨last.pause, last.keypad, last.pending, last.clock, rfl⟩

end Machine.EndsAt

/-- A call that executes instructions, and that may end in any way, goes through a row
of steps that succeed, whatever happens around the machine meanwhile. Behind the call,
the log tells exactly what these steps did, and it misses no difference between the
machine before the call and the machine behind it. -/
theorem Call.on_reports {c : Call} {m : Machine} (hOnly : c.OnlyExecutes m) (budget : Nat)
    (course : Course) :
    ∃ n last, (c.first m).after? n course = some last ∧
      Machine.EndsAt last (c.on budget m course) ∧
      (c.on budget m course).machine.executed = m.executed + UInt64.ofNat n ∧
      (c.first m).Reports course n (c.on budget m course).machine.log ∧
      (∀ a : UInt16,
        (c.on budget m course).machine.memory.get? a.toNat ≠ m.memory.get? a.toNat →
          ((c.on budget m course).machine.log.get a).modified = true) ∧
      (∀ r, (c.on budget m course).machine.registers.get r ≠ m.registers.get r →
        (c.on budget m course).machine.log.isChanged r = true) ∧
      ∀ x y, (c.on budget m course).machine.screen.get? x y ≠ m.screen.get? x y →
        (c.on budget m course).machine.log.drawn = true := by
  rcases c.exists_endsAt_on hOnly budget course with ⟨n, last, hLast, hEnds⟩
  rcases hEnds.machine_eq with ⟨pause, keypad, pending, clock, hLeft⟩
  rcases c.first_eq m with ⟨pause', hFirst⟩
  have hReports : (c.first m).Reports course n last.log :=
    Machine.reports_of_after? (by rw [hFirst]) hLast
  have hMisses := hReports.of_ne hLast
  have hCount := Machine.executed_after? hLast
  rw [hFirst] at hMisses hCount
  refine ⟨n, last, hLast, hEnds, ?_⟩
  rw [hLeft]
  exact ⟨hCount, hReports, hMisses⟩

/-- A machine in a subroutine that stores what is left of the delay timer over another
value, clears the screen unless the first key is pressed, and returns. -/
def storingInSubroutine : Machine :=
  { Machine.start none 0 with
    memory := Machine.memoryOf
      [0x61, 0x00, 0xF0, 0x07, 0xA3, 0x00, 0xF0, 0x55, 0xE1, 0x9E, 0x00, 0xE0, 0x00, 0xEE]
    stack := [⟨0x400, 0x200, 0x402⟩] }

/-- A tick is due behind each instruction, and in front of the fifth the key is
pressed. -/
def ticking : Course := fun count => ⟨20000000, if count = 4 then [.press 0] else []⟩

theorem Call.on_reports_storing :
    storingInSubroutine.stack ≠ [] ∧
      ((Call.stepOut.on 9 storingInSubroutine ticking).machine.log.get 0x300).modified = true ∧
      (Call.stepOut.on 9 storingInSubroutine ticking).machine.log.isChanged 0 = true ∧
      ∃ n, (Call.stepOut.first storingInSubroutine).Reports ticking n
        (Call.stepOut.on 9 storingInSubroutine ticking).machine.log := by
  have hOpen : storingInSubroutine.stack ≠ [] := by decide
  have hByte : (Call.stepOut.on 9 storingInSubroutine ticking).machine.memory.get?
      (0x300 : UInt16).toNat ≠ storingInSubroutine.memory.get? (0x300 : UInt16).toNat := by
    decide +kernel
  have hRegister : (Call.stepOut.on 9 storingInSubroutine ticking).machine.registers.get 0 ≠
      storingInSubroutine.registers.get 0 := by decide +kernel
  have hOnly : Call.stepOut.OnlyExecutes storingInSubroutine := hOpen
  rcases Call.on_reports hOnly 9 ticking with
    ⟨n, last, -, -, -, hReports, hBytes, hRegisters, -⟩
  exact ⟨hOpen, hBytes 0x300 hByte, hRegisters 0 hRegister, n, hReports⟩

/-- The key has been seen: without it, the screen is cleared. -/
example : (Call.stepOut.on 9 storingInSubroutine ticking).machine.log.drawn = false ∧
    (Call.stepOut.on 9 storingInSubroutine).machine.log.drawn = true := by
  decide +kernel

end Chip8

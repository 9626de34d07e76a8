import Chip8.Proofs.Machine.Failing
import Chip8.Proofs.Machine.Host
import Mathlib.Order.Bounds.Defs

/-!
# Access to blocks of memory

A block of memory is read or written as a whole or not at all. It is refused if one of
its bytes is past the end, and the fault names the first of these.

A block without bytes has none past the end, and it is refused all the same if it begins
there: the check compares the ends of the block and of the memory, and the end of such a
block is where it begins. A sprite without rows is therefore drawn where the address
pointer is inside or right behind the memory, and fails further on.

## Main definitions

* `Memory.outside` — the addresses of a block that are past the end.
* `Memory.Refused` — the two reasons to refuse a block.

## Main results

* `Memory.refused_iff` — both reasons in one inequality.
* `Memory.block_eq_error_iff_refused`, `Memory.store_eq_error_iff_refused`,
  `Memory.fill_eq_store` — the three kinds of access are refused alike.
* `Machine.fault_step_iff_refused` — and so are the instructions that access a block.
* `Machine.fault_step_draw_iff` — when drawing a sprite fails.
* `Memory.access_refused_iff` — when an access fails, and what it gives otherwise.
* `Machine.exists_refused_empty_sprite` — a program that fails at a sprite without rows.
-/

namespace Chip8

namespace Memory

variable {m : Memory} {address length a : Nat} {bs : List UInt8} {fault : Fault}

/-- The addresses of a block that are past the end of the memory. -/
def outside (address length : Nat) : Set Nat :=
  {a | address ≤ a ∧ a < address + length ∧ memorySize ≤ a}

/-- A block without bytes has none past the end, wherever it begins. -/
theorem notMem_outside_zero : a ∉ outside address 0 :=
  fun hMember => absurd hMember.2.1 (Nat.not_lt.2 hMember.1)

/-- Why an access to a block is refused. -/
inductive Refused (address length : Nat) : Fault → Prop
  /-- A byte of the block is past the end, and this is the first one. -/
  | byte {a : Nat} (hFirst : IsLeast (outside address length) a) :
      Refused address length (.memoryOutOfBounds a)
  /-- The block has no bytes and begins past the end. -/
  | empty (hEmpty : length = 0) (hPast : memorySize < address) :
      Refused address length (.memoryOutOfBounds address)

private theorem isLeast_outside_iff :
    IsLeast (outside address length) a ↔
      0 < length ∧ memorySize < address + length ∧ a = max address memorySize := by
  constructor
  · rintro ⟨⟨hFrom, hTo, hPast⟩, hLower⟩
    have hMember : max address memorySize ∈ outside address length :=
      ⟨Nat.le_max_left .., by omega, Nat.le_max_right ..⟩
    have hLeast : a ≤ max address memorySize := hLower hMember
    omega
  · rintro ⟨hBytes, hEnd, rfl⟩
    refine ⟨⟨Nat.le_max_left .., by omega, Nat.le_max_right ..⟩, fun b hMember => ?_⟩
    exact Nat.max_le.2 ⟨hMember.1, hMember.2.2⟩

/-- A block is refused if it ends past the end of the memory, whether it has bytes or
not. -/
theorem refused_iff :
    Refused address length fault ↔
      memorySize < address + length ∧ fault = .memoryOutOfBounds (max address memorySize) := by
  constructor
  · intro hRefused
    cases hRefused with
    | byte hFirst =>
        rcases isLeast_outside_iff.1 hFirst with ⟨-, hEnd, rfl⟩
        exact ⟨hEnd, rfl⟩
    | empty hEmpty hPast =>
        have hMax : max address memorySize = address := by omega
        exact ⟨by omega, by rw [hMax]⟩
  · rintro ⟨hEnd, rfl⟩
    by_cases hBytes : 0 < length
    · exact .byte (isLeast_outside_iff.2 ⟨hBytes, hEnd, rfl⟩)
    · have hPast : memorySize < address := by omega
      have hMax : max address memorySize = address := by omega
      rw [hMax]
      exact .empty (by omega) hPast

private theorem exists_refused_iff :
    (∃ fault, Refused address length fault) ↔ memorySize < address + length := by
  simp [refused_iff]

/-- With ends in words of 64 bits, a block is refused also if its end wraps. -/
theorem exists_refused_iff_of_words (first count : UInt64) :
    (∃ fault, Refused first.toNat count.toNat fault) ↔
      first + count < first ∨ memorySize < (first + count).toNat := by
  have hFirst := first.toNat_lt
  have hCount := count.toNat_lt
  rw [exists_refused_iff, UInt64.lt_iff_toNat_lt, UInt64.toNat_add, memorySize]
  omega

/-! ## The three kinds of access -/

theorem block_eq_error_iff_refused :
    m.block address length = .error fault ↔ Refused address length fault :=
  block_eq_error_iff.trans refused_iff.symm

theorem store_eq_error_iff_refused :
    m.store address bs = .error fault ↔ Refused address bs.length fault := by
  rw [refused_iff]
  unfold store checkBlock
  by_cases hInside : address + bs.length ≤ memorySize
  · have hEnd : ¬ memorySize < address + bs.length := Nat.not_lt.2 hInside
    simp [hInside, hEnd, bind, Except.bind, pure, Except.pure]
  · simp [hInside, bind, Except.bind, eq_comm, Nat.lt_of_not_le hInside]

/-- Filling a block is storing as many copies of the byte. -/
theorem fill_eq_store (m : Memory) (address length : Nat) (byte : UInt8) :
    m.fill address length byte = m.store address (List.replicate length byte) := by
  unfold fill store
  rw [List.length_replicate]
  unfold checkBlock
  by_cases hInside : address + length ≤ memorySize
  · simp [hInside, bind, Except.bind]
  · simp [hInside, bind, Except.bind]

/-- What is not refused is read. -/
theorem exists_block_of_not_refused (m : Memory)
    (hGranted : ¬ ∃ fault, Refused address length fault) :
    ∃ bs, m.block address length = .ok bs ∧ bs.length = length ∧
      ∀ i < length, bs[i]? = m.get? (address + i) := by
  cases hRead : m.block address length with
  | error fault => exact absurd ⟨fault, block_eq_error_iff_refused.1 hRead⟩ hGranted
  | ok bs =>
      exact ⟨bs, rfl, length_of_block_eq_ok hRead,
        fun i hBelow => getElem?_of_block_eq_ok hRead hBelow⟩

/-- What is not refused is written. -/
theorem exists_store_of_not_refused (m : Memory) (bs : List UInt8)
    (hGranted : ¬ ∃ fault, Refused address bs.length fault) :
    ∃ m', m.store address bs = .ok m' ∧
      (∀ i < bs.length, m'.get? (address + i) = bs[i]?) ∧
      ∀ q, q < address ∨ address + bs.length ≤ q → m'.get? q = m.get? q := by
  cases hWritten : m.store address bs with
  | error fault => exact absurd ⟨fault, store_eq_error_iff_refused.1 hWritten⟩ hGranted
  | ok m' =>
      refine ⟨m', rfl, fun i hBelow => ?_, fun q hOther => ?_⟩
      · have hInside : address ≤ address + i ∧ address + i - address < bs.length := by omega
        rw [get?_of_store_eq_ok hWritten, if_pos hInside, Nat.add_sub_cancel_left]
      · rw [get?_of_store_eq_ok hWritten, if_neg (by omega)]

end Memory

/-! ## Instructions that access a block -/

namespace Machine

variable {m : Machine} {i : Instruction} {length : Nat} {fault : Fault}

/-- An instruction that accesses a block fails exactly if the block is refused, by the
same fault. -/
theorem fault_step_iff_refused (hFetch : m.fetch = .ok i)
    (hLength : i.blockLength? = some length) :
    m.step.2 = some fault ↔ Memory.Refused m.index.toNat length fault := by
  rw [fault_step_of_fetch_ok hFetch, Memory.refused_iff, Instruction.refusal?_eq_some_iff]
  constructor
  · -- The operations that fail for other reasons access no block.
    rintro (⟨⟨hOp, -⟩, -⟩ | ⟨⟨hOp | hOp, -⟩, -⟩ | ⟨⟨length', hLength', hEnd⟩, hFault⟩)
    · simp [Instruction.blockLength?, hOp] at hLength
    · simp [Instruction.blockLength?, hOp] at hLength
    · simp [Instruction.blockLength?, hOp] at hLength
    · obtain rfl : length = length' := Option.some.inj (hLength.symm.trans hLength')
      exact ⟨hEnd, hFault⟩
  · rintro ⟨hEnd, hFault⟩
    exact .inr (.inr ⟨⟨length, hLength, hEnd⟩, hFault⟩)

/-- Drawing a sprite fails if a row of it is past the end of the memory, or if it has no
rows and the address pointer is past the end. -/
theorem fault_step_draw_iff (hFetch : m.fetch = .ok i) (hOp : i.operation = .draw) :
    m.step.2 ≠ none ↔
      (∃ row < i.n, memorySize ≤ m.index.toNat + row) ∨
        i.n = 0 ∧ memorySize < m.index.toNat := by
  have hLength : i.blockLength? = some i.n := by rw [Instruction.blockLength?, hOp]
  have hSome : m.step.2 ≠ none ↔ memorySize < m.index.toNat + i.n := by
    rw [Option.ne_none_iff_exists', ← Memory.exists_refused_iff]
    exact exists_congr fun fault => fault_step_iff_refused hFetch hLength
  rw [hSome]
  constructor
  · intro hEnd
    by_cases hRows : i.n = 0
    · exact .inr ⟨hRows, by omega⟩
    · exact .inl ⟨i.n - 1, by omega, by omega⟩
  · rintro (⟨row, hRow, hPast⟩ | ⟨hRows, hPast⟩)
    · omega
    · omega

private theorem memory_of_step_fault (hFault : m.step.2 ≠ none) : m.step.1.memory = m.memory := by
  rcases Option.ne_none_iff_exists'.1 hFault with ⟨fault, hSome⟩
  have hStep : m.step = (m.step.1, some fault) := by rw [← hSome]
  rw [eq_deliver_of_step_fault hStep]
  rfl

end Machine

/-! ## Every access -/

/-- Reading, writing and filling a block fail exactly if it is refused, with the fault
of the refusal. A block that is not refused is read as the bytes that stand there, and
writing it changes these bytes and no others. With ends in words of 64 bits, it is
refused also if its end wraps. An instruction that accesses a block fails in the same
way and leaves the memory as it was, and if it draws a sprite, then a row of the sprite
is past the end, or the sprite has no rows. -/
theorem Memory.access_refused_iff (memory : Memory) (address length : Nat) :
    (∀ fault, memory.block address length = .error fault ↔ Refused address length fault) ∧
    (∀ bs fault, bs.length = length →
      (memory.store address bs = .error fault ↔ Refused address length fault)) ∧
    (∀ byte, memory.fill address length byte =
      memory.store address (List.replicate length byte)) ∧
    ((¬ ∃ fault, Refused address length fault) →
      (∃ bs, memory.block address length = .ok bs ∧ bs.length = length ∧
        ∀ k < length, bs[k]? = memory.get? (address + k)) ∧
      ∀ bs, bs.length = length → ∃ memory', memory.store address bs = .ok memory' ∧
        (∀ k < length, memory'.get? (address + k) = bs[k]?) ∧
        ∀ q, q < address ∨ address + length ≤ q → memory'.get? q = memory.get? q) ∧
    (∀ first count : UInt64, (∃ fault, Refused first.toNat count.toNat fault) ↔
      first + count < first ∨ memorySize < (first + count).toNat) ∧
    ∀ (m : Machine) (i : Instruction), m.fetch = .ok i → i.blockLength? = some length →
      (∀ fault, m.step.2 = some fault ↔ Refused m.index.toNat length fault) ∧
      (m.step.2 ≠ none → m.step.1.memory = m.memory) ∧
      (i.operation = .draw → (m.step.2 ≠ none ↔
        (∃ row < length, memorySize ≤ m.index.toNat + row) ∨
          length = 0 ∧ memorySize < m.index.toNat)) := by
  refine ⟨fun fault => block_eq_error_iff_refused, ?_, fill_eq_store memory address length,
    fun hGranted => ⟨exists_block_of_not_refused memory hGranted, ?_⟩,
    exists_refused_iff_of_words, fun m i hFetch hLength => ⟨fun fault => ?_, ?_, fun hOp => ?_⟩⟩
  · rintro bs fault rfl
    exact store_eq_error_iff_refused
  · rintro bs rfl
    exact exists_store_of_not_refused memory bs hGranted
  · exact Machine.fault_step_iff_refused hFetch hLength
  · exact Machine.memory_of_step_fault
  · rw [Instruction.blockLength?, hOp] at hLength
    obtain rfl : i.n = length := Option.some.inj hLength
    exact Machine.fault_step_draw_iff hFetch hOp

namespace Machine

/-- A machine with a program that moves the address pointer past the end of the memory
and draws a sprite without rows there. -/
def drawingNothing : Machine :=
  { Machine.start none 0 with
    memory := memoryOf [0xAF, 0xFF, 0x60, 0x02, 0xF0, 0x1E, 0xD1, 0x10]
    program := [0xAF, 0xFF, 0x60, 0x02, 0xF0, 0x1E, 0xD1, 0x10]
    program_fits := by decide }

/-- The machine before the sprite is drawn. -/
def beforeNothing : Machine := drawingNothing.step.1.step.1.step.1

/-- The course of the program, which is evaluated once. -/
private theorem course_drawingNothing :
    ¬ Core.OffProgram beforeNothing.pc ∧
      beforeNothing.memory.word? beforeNothing.pc.toNat = some 0xD110 ∧
      beforeNothing.index = 0x1001 := by
  decide +kernel

private theorem index_beforeNothing : beforeNothing.index = 0x1001 := course_drawingNothing.2.2

private theorem fetch_beforeNothing :
    beforeNothing.fetch = .ok ⟨⟨.draw, .drw, .registerRegisterValue, none, 0xD000⟩, 0xD110⟩ :=
  Core.fetch_of_word course_drawingNothing.1 course_drawingNothing.2.1 (by decide +kernel)

end Machine

/-- The last three bytes of the memory can be read and written, six bytes from the same
address on cannot be, and a sprite without rows cannot be drawn past the end. -/
theorem Memory.access_refused_iff_at_the_end :
    (∃ bs, Memory.zero.block 0xFFD 3 = .ok bs ∧ bs.length = 3) ∧
      (∃ m, Memory.zero.store 0xFFD [1, 2, 3] = .ok m ∧ m.get? (0xFFD + 2) = some 3) ∧
      Machine.storingPastTheEnd.step.2 = some (.memoryOutOfBounds 0x1000) ∧
      Machine.storingPastTheEnd.step.1.memory = Machine.storingPastTheEnd.memory ∧
      Machine.beforeNothing.step.2 ≠ none := by
  have hGranted : ¬ ∃ fault, Refused 0xFFD 3 fault := by
    rw [exists_refused_iff]
    decide
  rcases access_refused_iff Memory.zero 0xFFD 3 with ⟨-, -, -, hAccess, -⟩
  rcases hAccess hGranted with ⟨⟨bs, hRead, hLength, -⟩, hWrite⟩
  rcases hWrite [1, 2, 3] rfl with ⟨m, hWritten, hBytes, -⟩
  have hStoring : Machine.storingPastTheEnd.fetch =
      .ok ⟨⟨.storeRegisters, .fx55, .register, none, 0xF055⟩, 0xF555⟩ :=
    Core.fetch_of_word (by decide +kernel) (by decide +kernel) (by decide +kernel)
  rcases access_refused_iff Memory.zero 0xFFD 6 with ⟨-, -, -, -, -, hMachine⟩
  rcases hMachine _ _ hStoring rfl with ⟨hFault, hSame, -⟩
  have hStep := (hFault _).2 (refused_iff.2 ⟨by decide, rfl⟩)
  rcases access_refused_iff Memory.zero 0x1001 0 with ⟨-, -, -, -, -, hSprite⟩
  rcases hSprite _ _ Machine.fetch_beforeNothing rfl with ⟨-, -, hDraw⟩
  have hPast : memorySize < Machine.beforeNothing.index.toNat := by
    rw [Machine.index_beforeNothing]
    decide
  exact ⟨⟨bs, hRead, hLength⟩, ⟨m, hWritten, hBytes 2 (by decide)⟩, hStep,
    hSame (by rw [hStep]; simp), (hDraw rfl).2 (.inr ⟨rfl, hPast⟩)⟩

/-- A program that was loaded comes to a sprite without rows, and so without a row past
the end of the memory, that fails, by an address that no row has. -/
theorem Machine.exists_refused_empty_sprite :
    (Machine.start none 0).load [0xAF, 0xFF, 0x60, 0x02, 0xF0, 0x1E, 0xD1, 0x10] =
        .ok drawingNothing ∧
      ∃ last i, Leads drawingNothing last ∧ last.fetch = .ok i ∧ i.operation = .draw ∧
        (¬ ∃ a, a ∈ Memory.outside last.index.toNat i.n) ∧
        last.step.2 = some (.memoryOutOfBounds 0x1001) := by
  have hLeads : Leads drawingNothing beforeNothing := (Leads.refl _).step.step.step
  refine ⟨load_start none 0 (by decide), beforeNothing, _, hLeads, fetch_beforeNothing, rfl, ?_, ?_⟩
  · rw [index_beforeNothing]
    exact fun ⟨a, hMember⟩ => Memory.notMem_outside_zero hMember
  · refine (fault_step_iff_refused fetch_beforeNothing rfl).2 ?_
    rw [index_beforeNothing]
    exact .empty rfl (by decide)

end Chip8

import Chip8.Proofs.Machine.WellFormed

/-!
# Sums that leave the address space

The instruction that adds a register to the address pointer also says in the flag
register whether the sum is an address of twelve bits. It goes by the sum that is left
in the address pointer, which has sixteen bits. From `65536` on this sum starts again at
zero, and since the number that is added has only eight bits, it is then far below the
end of the address space: a sum that wraps is reported as one that stays inside.

To come that far takes a long climb. Every other instruction that sets the address
pointer leaves it at `0x1000` or below, and an addition moves it up by 255 at most, so
that the report is true of the first 240 additions in a row, whatever is done between
them.

## Main definitions

* `Operation.climb`, `Machine.climb` — the number of additions since the address pointer
  was set to something else.

## Main results

* `Machine.step_addIndex` — what an addition leaves in the machine.
* `Machine.index_le_of_after?` — how far the address pointer can be after a number of
  additions.
* `Machine.addIndex_flag_iff` — when the flag is set, and when this is the truth.
* `Machine.exists_unreported_addIndex` — a program that leaves the address space
  unreported.
-/

namespace Chip8

/-- A sum of sixteen bits is above the largest address if the sum of the numbers is,
unless it wraps. -/
theorem lt_add_toUInt16_iff (a : UInt16) (b : UInt8) :
    0xFFF < a + b.toUInt16 ↔ 0xFFF < a.toNat + b.toNat ∧ a.toNat + b.toNat < 65536 := by
  have hA := a.toNat_lt
  have hB := b.toNat_lt
  have hLargest : (0xFFF : UInt16).toNat = 0xFFF := rfl
  rw [UInt16.lt_iff_toNat_lt, UInt16.toNat_add, UInt8.toNat_toUInt16, hLargest]
  omega

/-- The number of additions to the address pointer since it was set to something else,
behind one more instruction. -/
def Operation.climb (o : Operation) (count : Nat) : Nat :=
  match o with
  | .addIndex => count + 1
  | .loadIndex | .fontIndex | .storeRegisters => 0
  | _ => count

namespace Machine

variable {m m' last : Machine} {i : Instruction} {n count : Nat} {course : Course}

/-- The number of additions to the address pointer since it was set to something else,
behind `n` more steps. -/
def climb : Nat → Machine → Nat → (course : Course := .still) → Nat
  | 0, _, count, _ => count
  | n + 1, m, count, course =>
    match m.fetch with
    | .ok i =>
      climb n (m.meanwhile (course 0)).step.1 (i.operation.climb count) (course.drop 1)
    | .error _ => count

private theorem climb_succ_of_step (hFetch : m.fetch = .ok i)
    (hStep : (m.meanwhile (course 0)).step = (m', none)) (n : Nat) :
    climb (n + 1) m count course = climb n m' (i.operation.climb count) (course.drop 1) := by
  simp only [climb, hFetch, hStep]

/-! ## One addition -/

/-- An addition does not fail. The flag tells whether the sum of sixteen bits is above
the largest address, and the number that is added is the one from before the flag was
set. -/
theorem step_addIndex (hFetch : m.fetch = .ok i) (hOp : i.operation = .addIndex) :
    m.step.2 = none ∧
      m.step.1.index = m.index + (m.registers.get i.x).toUInt16 ∧
      m.step.1.registers = m.registers.set Register.flag
        (Instruction.bit (0xFFF < m.index + (m.registers.get i.x).toUInt16)) := by
  have hStep := step_of_execute_ok (m := m) hFetch (Instruction.on_execute_addIndex hOp _)
  rw [hStep]
  exact ⟨rfl, rfl, rfl⟩

/-- The registers behind an addition, with the sum in numbers that do not wrap. -/
theorem get_step_addIndex (hFetch : m.fetch = .ok i) (hOp : i.operation = .addIndex)
    (q : Register) :
    m.step.1.registers.get q =
      if q = Register.flag then
        if 0xFFF < m.index.toNat + (m.registers.get i.x).toNat ∧
          m.index.toNat + (m.registers.get i.x).toNat < 65536 then 1 else 0
      else m.registers.get q := by
  rw [(step_addIndex hFetch hOp).2.2, Registers.get_set, Instruction.bit]
  simp only [@eq_comm _ q, decide_eq_true_eq, lt_add_toUInt16_iff]

/-! ## Rows of additions -/

/-- Where an instruction leaves the address pointer, by the number of additions. -/
theorem index_le_of_step (hFetch : m.fetch = .ok i) (hStep : m.step = (m', none))
    (hIndex : m.index.toNat ≤ 0x1000 + 255 * count) :
    m'.index.toNat ≤ 0x1000 + 255 * i.operation.climb count := by
  have hExact := computesExactly hFetch
  have hRegister := (m.registers.get i.x).toNat_lt
  by_cases hAdd : i.operation = .addIndex
  · have hSum : i.pointer m.toCore = m.index.toNat + (m.registers.get i.x).toNat := by
      rw [Instruction.pointer, hAdd]
    have hWrapped := Nat.mod_le (i.pointer m.toCore) 65536
    rw [hExact.wrapping hAdd hStep, hAdd]
    show i.pointer m.toCore % 65536 ≤ 0x1000 + 255 * (count + 1)
    omega
  · rw [hExact.pointer hAdd hStep, Instruction.pointer]
    cases hOp : i.operation with
    | addIndex => exact absurd hOp hAdd
    | loadIndex =>
        have hAddress := i.toNat_nnn_le
        show i.nnn.toNat ≤ 0x1000 + 255 * 0
        omega
    | fontIndex =>
        show 5 * (m.registers.get i.x).toNat ≤ 0x1000 + 255 * 0
        omega
    | storeRegisters =>
        -- The block that was stored was inside the memory.
        have hNoFault : i.refusal? m.toCore = none := by
          rw [← fault_step_of_fetch_ok hFetch, hStep]
        have hBlock : i.blockLength? = some (i.x.val + 1) := by rw [Instruction.blockLength?, hOp]
        have hInside : ¬ memorySize < m.index.toNat + (i.x.val + 1) := fun hPast =>
          (Instruction.refusal?_eq_none_iff.1 hNoFault).2.2 ⟨_, hBlock, hPast⟩
        exact Nat.le_of_not_lt hInside
    | _ => exact hIndex

/-- The address pointer is at most 255 higher for each of the additions since it was set
to something else. -/
theorem index_le_of_after? (hLast : m.after? n course = some last)
    (hIndex : m.index.toNat ≤ 0x1000 + 255 * count) :
    last.index.toNat ≤ 0x1000 + 255 * climb n m count course := by
  induction n generalizing m count course with
  | zero =>
      obtain rfl : m = last := Option.some.inj hLast
      exact hIndex
  | succ n ih =>
      rcases exists_step_of_after?_succ hLast with ⟨m', hStep, hRest⟩
      rcases exists_of_step_ok hStep with ⟨i, -, hFetched, -, -⟩
      have hFetch : m.fetch = .ok i := hFetched
      have hFetchNow : (m.meanwhile (course 0)).fetch = .ok i := hFetch
      have hIndexNow : (m.meanwhile (course 0)).index.toNat ≤ 0x1000 + 255 * count := hIndex
      rw [climb_succ_of_step hFetch hStep]
      exact ih hRest (index_le_of_step hFetchNow hStep hIndexNow)

/-! ## The report -/

/-- An addition to the address pointer sets the flag if the sum is above the largest
address and does not wrap, and clears it otherwise; the number that is added is the one
from before, also where it comes from the flag register. This is the truth about the sum
exactly if it does not wrap. Behind a machine whose address pointer is not above
`0x1000`, as it is behind a reset, the sum does not wrap if fewer than 240 additions
were made since the address pointer was set to something else. -/
theorem addIndex_flag_iff (hFetch : m.fetch = .ok i) (hOp : i.operation = .addIndex) :
    m.step.2 = none ∧
    m.step.1.index.toNat = (m.index.toNat + (m.registers.get i.x).toNat) % 65536 ∧
    (∀ q, m.step.1.registers.get q =
      if q = Register.flag then
        if 0xFFF < m.index.toNat + (m.registers.get i.x).toNat ∧
          m.index.toNat + (m.registers.get i.x).toNat < 65536 then 1 else 0
      else m.registers.get q) ∧
    ((m.step.1.registers.get Register.flag = 1 ↔
        0xFFF < m.index.toNat + (m.registers.get i.x).toNat) ↔
      m.index.toNat + (m.registers.get i.x).toNat < 65536) ∧
    ∀ first n course, first.after? n course = some m → first.index.toNat ≤ 0x1000 →
      climb n first 0 course < 240 →
      (m.step.1.registers.get Register.flag = 1 ↔
        0xFFF < m.index.toNat + (m.registers.get i.x).toNat) := by
  have hTrue : (m.step.1.registers.get Register.flag = 1 ↔
        0xFFF < m.index.toNat + (m.registers.get i.x).toNat) ↔
      m.index.toNat + (m.registers.get i.x).toNat < 65536 := by
    rw [get_step_addIndex hFetch hOp, if_pos rfl]
    by_cases hReported : 0xFFF < m.index.toNat + (m.registers.get i.x).toNat ∧
        m.index.toNat + (m.registers.get i.x).toNat < 65536
    · simp [hReported]
    · rw [if_neg hReported]
      have hCleared : ¬ (0 : UInt8) = 1 := by decide
      simp only [hCleared, false_iff]
      omega
  refine ⟨(step_addIndex hFetch hOp).1, ?_, get_step_addIndex hFetch hOp, hTrue,
    fun first n course hLast hLow hFew => hTrue.2 ?_⟩
  · rw [(step_addIndex hFetch hOp).2.1, UInt16.toNat_add, UInt8.toNat_toUInt16]
  · have hIndex : m.index.toNat ≤ 0x1000 + 255 * climb n first 0 course :=
      index_le_of_after? hLast hLow
    have hRegister := (m.registers.get i.x).toNat_lt
    omega

/-- A machine that adds the flag register to the address pointer. -/
def addingFlag : Machine :=
  { Machine.start none 0 with
    memory := memoryOf [0xFF, 0x1E]
    registers := Registers.zero.set Register.flag 255
    index := 0xF01
    program := [0xFF, 0x1E]
    program_fits := by decide }

theorem addIndex_flag_iff_adding_flag :
    addingFlag.fetch = .ok ⟨⟨.addIndex, .add, .specialRegister, some .index, 0xF01E⟩, 0xFF1E⟩ ∧
      addingFlag.step.1.index.toNat = 0x1000 ∧
      addingFlag.step.1.registers.get Register.flag = 1 := by
  have hFetch : addingFlag.fetch =
      .ok ⟨⟨.addIndex, .add, .specialRegister, some .index, 0xF01E⟩, 0xFF1E⟩ :=
    Core.fetch_of_word (by decide +kernel) (by decide +kernel) (by decide +kernel)
  rcases addIndex_flag_iff hFetch rfl with ⟨-, hIndex, -, -, hReported⟩
  have hSum : addingFlag.index.toNat + (addingFlag.registers.get Register.flag).toNat = 0x1000 := by
    decide
  have hTrue := hReported addingFlag 0 .still rfl (by decide) (by decide)
  exact ⟨hFetch, hIndex.trans (by decide), hTrue.2 (Nat.lt_of_lt_of_eq (by decide) hSum.symm)⟩

/-- A program that was loaded comes to an addition whose sum is above the largest
address, and the flag is cleared. -/
theorem exists_unreported_addIndex :
    (Machine.start none 0).load countingUp = .ok countingFrom ∧
      ∃ last i, Leads countingFrom last ∧ last.fetch = .ok i ∧ i.operation = .addIndex ∧
        0xFFF < last.index.toNat + (last.registers.get i.x).toNat ∧
        last.step.1.registers.get Register.flag = 0 := by
  refine ⟨load_eq_ok_iff.2 ⟨by decide, rfl⟩, ?_⟩
  rcases exists_wrapping_addIndex with ⟨last, i, hLeads, hFetch, hOp, hWraps⟩
  rw [Instruction.pointer, hOp] at hWraps
  have hPast : 0xFFF < last.index.toNat + (last.registers.get i.x).toNat :=
    Nat.lt_of_lt_of_le (by decide) hWraps
  refine ⟨last, i, hLeads, hFetch, hOp, hPast, ?_⟩
  rw [get_step_addIndex hFetch hOp, if_pos rfl, if_neg]
  exact fun hReported => absurd hReported.2 (Nat.not_lt.2 hWraps)

end Machine

end Chip8

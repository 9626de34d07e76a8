import Chip8.Proofs.Machine.Atomic

/-!
# When a step fails

Whether a step fails, and by which fault, is told by a few conditions on the state
before it: the place of the program counter, the word there, and for seven operations
the call stack, a register or the address pointer. No other operation ever fails,
whatever the registers hold.

The conditions of an instruction are collected in `Instruction.refusal?`, which looks at
the state alone and executes nothing. That the instruction fails by exactly this fault
is shown change by change: changes that never fail add nothing to the fault of a change
in front of them, so that only the first change of an instruction counts.

## Main definitions

* `Change.fault?` — the fault by which a change fails.
* `Instruction.blockLength?`, `Instruction.refusal?` — what an instruction needs.
* `Core.OffProgram` — where no instruction is fetched.

## Main results

* `Instruction.fault?_execute` — an instruction fails exactly if it is refused.
* `Core.fetch_of_offProgram`, `Core.exists_fetch`, `Core.of_fetch` — what is fetched.
* `Machine.fault_stepIn_iff` — when a single step fails, fault by fault.
-/

namespace Chip8

/-! ## The fault of a change -/

/-- The fault in an outcome, if it is one. -/
def Fault.of? {α : Type} : Except Fault α → Option Fault
  | .ok _ => none
  | .error fault => some fault

/-- The fault of an access to a block, by the address of the first byte outside. -/
def Memory.blockFault? (address length : Nat) : Option Fault :=
  if memorySize < address + length then some (.memoryOutOfBounds (max address memorySize))
  else none

/-- What a memory holds has no part in the refusal of a block. -/
theorem Memory.fault_block (m : Memory) (address length : Nat) :
    Fault.of? (m.block address length) = blockFault? address length := by
  cases hRead : m.block address length with
  | error fault =>
      have hRefused := block_eq_error_iff.1 hRead
      rw [blockFault?, if_pos hRefused.1, hRefused.2]
      rfl
  | ok bytes =>
      have hInside : address + length ≤ memorySize := (block_eq_ok_iff.1 hRead).1
      rw [blockFault?, if_neg (Nat.not_lt.2 hInside)]
      rfl

namespace Change

variable {α β : Type}

/-- The fault by which a change fails on a core, if it does. -/
def fault? (a : Change α) (c : Core) : Option Fault := Fault.of? (a.on c).1

private theorem Succeeds.fault?_eq_none {a : Change α} (hSucceeds : Succeeds a) (c : Core) :
    a.fault? c = none := by
  rcases hSucceeds c with ⟨x, c', hDone⟩
  rw [fault?, hDone]
  rfl

/-- Reading the core takes no part in a failure. -/
theorem fault?_get_bind (f : Core → Change β) (c : Core) :
    (get >>= f).fault? c = (f c).fault? c := rfl

/-- A change that only changes that never fail follow decides alone. -/
theorem fault?_bind_succeeds (a : Change α) {f : α → Change β} (hNext : ∀ x, Succeeds (f x))
    (c : Core) : (a >>= f).fault? c = a.fault? c := by
  rcases hRun : a.on c with ⟨r, between⟩
  cases r with
  | error met =>
      rw [fault?, fault?, on_bind_of_error hRun, hRun]
      rfl
  | ok x =>
      have hLast : (f x).fault? between = none := (hNext x).fault?_eq_none between
      calc (a >>= f).fault? c = (f x).fault? between := by
            rw [fault?, on_bind_of_ok hRun, fault?]
        _ = none := hLast
        _ = a.fault? c := by
            rw [fault?, hRun]
            rfl

private theorem fault?_readBlock (address : UInt16) (length : Nat) (c : Core) :
    (readBlock address length).fault? c = Memory.blockFault? address.toNat length := by
  rw [fault?, on_readBlock, ← c.memory.fault_block]
  cases c.memory.block address.toNat length with
  | error fault => rfl
  | ok bytes => rfl

private theorem fault?_writeBlock (address : UInt16) (bytes : List UInt8) (c : Core) :
    (writeBlock address bytes).fault? c = Memory.blockFault? address.toNat bytes.length := by
  rw [fault?, on_writeBlock, ← c.memory.fault_block]
  cases c.memory.block address.toNat bytes.length with
  | error fault => rfl
  | ok bytes => rfl

private theorem fault?_keyIn (r : Register) (c : Core) :
    (keyIn r).fault? c =
      if 15 < (c.registers.get r).toNat then some (.invalidKey (c.registers.get r)) else none := by
  rw [fault?, on_keyIn]
  by_cases hKey : (c.registers.get r).toNat < 16
  · have hSmall : ¬ 15 < (c.registers.get r).toNat := by omega
    rw [if_pos hKey, if_neg hSmall]
    rfl
  · have hLarge : 15 < (c.registers.get r).toNat := by omega
    rw [if_neg hKey, if_pos hLarge]
    rfl

end Change

open Change

/-! ## Instructions that are refused -/

namespace Instruction

/-- The number of bytes that an instruction accesses at the address pointer, if it
accesses any there. -/
def blockLength? (i : Instruction) : Option Nat :=
  match i.operation with
  | .draw => some i.n
  | .decimalDigits => some 3
  | .storeRegisters => some (i.x.val + 1)
  | .loadRegisters => some (i.x.val + 1)
  | _ => none

/-- Why an instruction cannot be executed on a core, if it cannot. -/
def refusal? (i : Instruction) (c : Core) : Option Fault :=
  match i.operation with
  | .ret => if c.stack = [] then some .stackUnderflow else none
  | .skipKey | .skipNotKey =>
    if 15 < (c.registers.get i.x).toNat then some (.invalidKey (c.registers.get i.x)) else none
  | _ => i.blockLength?.bind (Memory.blockFault? c.index.toNat)

/-- An instruction fails exactly if it is refused. -/
theorem fault?_execute (i : Instruction) (c : Core) : i.execute.fault? c = i.refusal? c := by
  refine (fault?_get_bind _ c).trans ?_
  unfold refusal? blockLength?
  -- As in the proof that instructions are atomic, operations are grouped by their changes.
  cases i.operation with
  | sys | waitKey => exact (succeeds_pure ()).fault?_eq_none c
  | jump | skipEqValue | skipNeValue | skipEqRegister | skipNeRegister | loadValue | addValue
  | copy | or | and | xor | loadIndex | jumpOffset | readDelay | setDelay | setSound
  | fontIndex => exact (succeeds_modify _).fault?_eq_none c
  | clearScreen | call | add | subtract | subtractFrom | shiftRight | shiftLeft | random
  | addIndex => exact (succeeds_modify_modify _ _).fault?_eq_none c
  | ret =>
      cases hStack : c.stack with
      | nil => rfl
      | cons frame stack => exact (succeeds_modify_modify _ _).fault?_eq_none c
  | draw =>
      have hDraw := fault?_readBlock c.index i.n c
      refine (fault?_bind_succeeds _ (fun rows => ?_) c).trans hDraw
      exact (succeeds_modify _).bind fun _ => succeeds_modify_modify _ _
  | skipKey =>
      refine (fault?_bind_succeeds _ (fun key => ?_) c).trans (fault?_keyIn i.x c)
      by_cases hPressed : c.keypad.isPressed key
      · simp only [hPressed, ↓reduceIte]
        exact succeeds_modify_modify _ _
      · simp only [hPressed, Bool.false_eq_true, ↓reduceIte]
        exact succeeds_pure ()
  | skipNotKey =>
      refine (fault?_bind_succeeds _ (fun key => ?_) c).trans (fault?_keyIn i.x c)
      by_cases hPressed : c.keypad.isPressed key
      · simp only [hPressed, ↓reduceIte]
        exact succeeds_modify _
      · simp only [hPressed, Bool.false_eq_true, ↓reduceIte]
        exact succeeds_modify _
  | decimalDigits => exact fault?_writeBlock _ _ c
  | storeRegisters =>
      refine (fault?_bind_succeeds _ (fun _ => succeeds_modify _) c).trans ?_
      rw [fault?_writeBlock, Registers.length_through]
      rfl
  | loadRegisters =>
      exact (fault?_bind_succeeds _ (fun _ => succeeds_modify _) c).trans
        (fault?_readBlock c.index (i.x.val + 1) c)

/-- The three reasons to refuse an instruction. -/
theorem refusal?_eq_some_iff {i : Instruction} {c : Core} {fault : Fault} :
    i.refusal? c = some fault ↔
      (i.operation = .ret ∧ c.stack = []) ∧ fault = .stackUnderflow ∨
      ((i.operation = .skipKey ∨ i.operation = .skipNotKey) ∧
          15 < (c.registers.get i.x).toNat) ∧ fault = .invalidKey (c.registers.get i.x) ∨
      (∃ length, i.blockLength? = some length ∧ memorySize < c.index.toNat + length) ∧
        fault = .memoryOutOfBounds (max c.index.toNat memorySize) := by
  unfold refusal?
  split
  · rename_i hOp
    simp [hOp, blockLength?, @eq_comm _ fault]
  · rename_i hOp
    simp [hOp, blockLength?, @eq_comm _ fault]
  · rename_i hOp
    simp [hOp, blockLength?, @eq_comm _ fault]
  · rename_i hOther hOther' hOther''
    have hRet : i.operation ≠ .ret := hOther
    have hKey : i.operation ≠ .skipKey := hOther'
    have hNotKey : i.operation ≠ .skipNotKey := hOther''
    simp [hRet, hKey, hNotKey, Memory.blockFault?, Option.bind_eq_some_iff, @eq_comm _ fault,
      ← exists_and_right, and_assoc]

/-- An instruction with none of these reasons is not refused. -/
theorem refusal?_eq_none_iff {i : Instruction} {c : Core} :
    i.refusal? c = none ↔
      ¬ (i.operation = .ret ∧ c.stack = []) ∧
      ¬ ((i.operation = .skipKey ∨ i.operation = .skipNotKey) ∧
          15 < (c.registers.get i.x).toNat) ∧
      ¬ ∃ length, i.blockLength? = some length ∧ memorySize < c.index.toNat + length := by
  constructor
  · intro hNone
    refine ⟨fun hRet => ?_, fun hKey => ?_, fun hBlock => ?_⟩
    · have hSome := refusal?_eq_some_iff.2 (.inl ⟨hRet, rfl⟩)
      simp [hNone] at hSome
    · have hSome := refusal?_eq_some_iff.2 (.inr (.inl ⟨hKey, rfl⟩))
      simp [hNone] at hSome
    · have hSome := refusal?_eq_some_iff.2 (.inr (.inr ⟨hBlock, rfl⟩))
      simp [hNone] at hSome
  · intro hGiven
    rcases hGiven with ⟨hRet, hKey, hBlock⟩
    cases hRefused : i.refusal? c with
    | none => rfl
    | some fault =>
        rcases refusal?_eq_some_iff.1 hRefused with h | h | h
        · exact absurd h.1 hRet
        · exact absurd h.1 hKey
        · exact absurd h.1 hBlock

end Instruction

/-! ## Fetching -/

namespace Core

/-- No instruction is fetched from the address: it is odd, or no instruction fits in
between it and the ends of the memory for programs. -/
def OffProgram (pc : UInt16) : Prop :=
  pc.toNat % 2 = 1 ∨ pc.toNat < 0x200 ∨ 0xFFE < pc.toNat

instance (pc : UInt16) : Decidable (OffProgram pc) := inferInstanceAs (Decidable (_ ∨ _ ∨ _))

variable {c : Core}

theorem fetch_of_offProgram (hOff : OffProgram c.pc) :
    c.fetch = .error (.pcOutOfBounds c.pc) := by
  unfold fetch
  by_cases hStart : c.pc.toNat % 2 ≠ 0 ∨ c.pc.toNat < programStart
  · rw [if_pos hStart]
  · have hEnd : ¬ c.pc.toNat + 1 < memorySize := by
      simp only [OffProgram, programStart, memorySize] at *
      omega
    have hNone : c.memory.word? c.pc.toNat = none := by
      rw [← Option.not_isSome_iff_eq_none, Memory.word?_isSome]
      exact hEnd
    rw [if_neg hStart, hNone]

/-- Anywhere else there is a word, which alone tells what is fetched. -/
theorem exists_fetch (hOn : ¬ OffProgram c.pc) :
    ∃ word, c.memory.word? c.pc.toNat = some word ∧
      (Instruction.decode? word = none → c.fetch = .error (.illegalOpcode word)) ∧
      ∀ i, Instruction.decode? word = some i → c.fetch = .ok i := by
  have hStart : ¬ (c.pc.toNat % 2 ≠ 0 ∨ c.pc.toNat < programStart) := by
    simp only [OffProgram, programStart] at *
    omega
  have hSome : (c.memory.word? c.pc.toNat).isSome := by
    rw [Memory.word?_isSome]
    simp only [OffProgram, memorySize] at *
    omega
  rcases Option.isSome_iff_exists.1 hSome with ⟨word, hWord⟩
  refine ⟨word, hWord, ?_, ?_⟩
  · intro hNone
    simp only [fetch, if_neg hStart, hWord, hNone]
  · intro i hDecoded
    simp only [fetch, if_neg hStart, hWord, hDecoded]

/-- An instruction is fetched where its word stands. -/
theorem fetch_of_word {i : Instruction} (hOn : ¬ OffProgram c.pc)
    (hWord : c.memory.word? c.pc.toNat = some i.word)
    (hCode : Instruction.decode? i.word = some i) : c.fetch = .ok i := by
  rcases exists_fetch hOn with ⟨word, hWord', -, hDecoded⟩
  obtain rfl : i.word = word := Option.some.inj (hWord.symm.trans hWord')
  exact hDecoded i hCode

/-- An instruction that is fetched is the word that the program counter points to. -/
theorem of_fetch {i : Instruction} (hFetch : c.fetch = .ok i) :
    ¬ OffProgram c.pc ∧ c.memory.word? c.pc.toNat = some i.word ∧
      Instruction.decode? i.word = some i := by
  by_cases hOff : OffProgram c.pc
  · rw [fetch_of_offProgram hOff] at hFetch
    exact absurd hFetch (by simp)
  · rcases exists_fetch hOff with ⟨word, hWord, hIllegal, hDecoded⟩
    cases hDecode : Instruction.decode? word with
    | none => exact absurd (hFetch.symm.trans (hIllegal hDecode)) (by simp)
    | some j =>
        obtain rfl : i = j := Except.ok.inj (hFetch.symm.trans (hDecoded j hDecode))
        rw [(Instruction.decode?_eq_some_iff.1 hDecode).2]
        exact ⟨hOff, hWord, hDecode⟩

end Core

/-- A word is no instruction if no entry of the opcode table matches it. -/
theorem Instruction.decode?_eq_none_iff {word : UInt16} :
    decode? word = none ↔ ∀ e ∈ opcodeTable, ¬ e.Matches word := by
  simp [decode?, Entry.find?]

/-! ## Steps -/

namespace Machine

variable {m : Machine} {i : Instruction} {fault : Fault}

theorem fault_step_of_fetch_error (hFetch : m.fetch = .error fault) :
    m.step.2 = some fault := by
  rw [← fetch_deliver] at hFetch
  rw [step_of_fetch_error hFetch]

/-- The conditions on a core do not depend on what happens between the start of a step
and its instruction: the delivery of key events, and the program counter that moves
on. -/
theorem fault_step_of_fetch_ok (hFetch : m.fetch = .ok i) :
    m.step.2 = i.refusal? m.toCore := by
  rw [← fetch_deliver] at hFetch
  have hFault : i.execute.fault? (m.deliver.begin i).toCore = i.refusal? m.toCore :=
    i.fault?_execute (m.deliver.begin i).toCore
  rw [← hFault, Change.fault?]
  rcases hRun : i.execute.on (m.deliver.begin i).toCore with ⟨met | _, after⟩
  · rw [step_of_execute_error hFetch hRun]
    rfl
  · rw [step_of_execute_ok hFetch hRun]
    rfl

/-- When a single step fails. -/
theorem fault_stepIn_iff (m : Machine) :
    (m.stepIn.2 = some (.pcOutOfBounds m.pc) ↔
      m.pc.toNat % 2 = 1 ∨ m.pc.toNat < 0x200 ∨ 0xFFE < m.pc.toNat) ∧
    (¬ (m.pc.toNat % 2 = 1 ∨ m.pc.toNat < 0x200 ∨ 0xFFE < m.pc.toNat) →
      ∃ word, m.memory.word? m.pc.toNat = some word ∧
        (m.stepIn.2 = some (.illegalOpcode word) ↔ ∀ e ∈ opcodeTable, ¬ e.Matches word) ∧
        ∀ i, Instruction.decode? word = some i →
          (m.stepIn.2 = some .stackUnderflow ↔ i.operation = .ret ∧ m.stack = []) ∧
          (m.stepIn.2 = some (.invalidKey (m.registers.get i.x)) ↔
            (i.operation = .skipKey ∨ i.operation = .skipNotKey) ∧
              15 < (m.registers.get i.x).toNat) ∧
          (m.stepIn.2 = some (.memoryOutOfBounds (max m.index.toNat 0x1000)) ↔
            ∃ length, i.blockLength? = some length ∧ 0x1000 < m.index.toNat + length) ∧
          (m.stepIn.2 = none ↔
            ¬ (i.operation = .ret ∧ m.stack = []) ∧
            ¬ ((i.operation = .skipKey ∨ i.operation = .skipNotKey) ∧
              15 < (m.registers.get i.x).toNat) ∧
            ¬ ∃ length, i.blockLength? = some length ∧
              0x1000 < m.index.toNat + length)) := by
  have hSize : (0x1000 : Nat) = memorySize := rfl
  rw [hSize]
  by_cases hOff : Core.OffProgram m.pc
  · have hFault : m.stepIn.2 = some (.pcOutOfBounds m.pc) :=
      fault_step_of_fetch_error (Core.fetch_of_offProgram hOff)
    exact ⟨⟨fun _ => hOff, fun _ => hFault⟩, fun hOn => absurd hOff hOn⟩
  · rcases Core.exists_fetch hOff with ⟨word, hWord, hIllegal, hDecoded⟩
    have hIllegalFault : Instruction.decode? word = none →
        m.stepIn.2 = some (.illegalOpcode word) :=
      fun hNone => fault_step_of_fetch_error (hIllegal hNone)
    have hRefusal : ∀ i, Instruction.decode? word = some i →
        m.stepIn.2 = i.refusal? m.toCore :=
      fun i hSome => fault_step_of_fetch_ok (hDecoded i hSome)
    refine ⟨⟨fun hFault => ?_, fun hPc => absurd hPc hOff⟩, fun _ => ⟨word, hWord, ?_, ?_⟩⟩
    · -- No other fault carries the program counter.
      cases hDecode : Instruction.decode? word with
      | none => simp [hIllegalFault hDecode] at hFault
      | some i => simp [hRefusal i hDecode, Instruction.refusal?_eq_some_iff] at hFault
    · rw [← Instruction.decode?_eq_none_iff]
      cases hDecode : Instruction.decode? word with
      | none => simp [hIllegalFault hDecode]
      | some i => simp [hRefusal i hDecode, Instruction.refusal?_eq_some_iff]
    · intro i hDecode
      rw [hRefusal i hDecode]
      refine ⟨?_, ?_, ?_, Instruction.refusal?_eq_none_iff⟩
      · simp [Instruction.refusal?_eq_some_iff]
      · simp [Instruction.refusal?_eq_some_iff]
      · simp [Instruction.refusal?_eq_some_iff]

theorem fault_stepIn_iff_storing :
    storingPastTheEnd.stepIn.2 = some (.memoryOutOfBounds (max 0xFFD 0x1000)) := by
  have hOn : ¬ (storingPastTheEnd.pc.toNat % 2 = 1 ∨ storingPastTheEnd.pc.toNat < 0x200 ∨
      0xFFE < storingPastTheEnd.pc.toNat) := by decide
  have hWord : storingPastTheEnd.memory.word? 0x200 = some 0xF555 := by decide +kernel
  have hCode : Instruction.decode? 0xF555 =
      some ⟨⟨.storeRegisters, .fx55, .register, none, 0xF055⟩, 0xF555⟩ := by decide +kernel
  rcases (fault_stepIn_iff storingPastTheEnd).2 hOn with ⟨word, hRead, -, hAll⟩
  obtain rfl : (0xF555 : UInt16) = word := Option.some.inj (hWord.symm.trans hRead)
  exact (hAll _ hCode).2.2.1.2 ⟨6, rfl, by decide⟩

end Machine

end Chip8

import Chip8.Proofs.Machine.CallStack
import Chip8.Proofs.Machine.Failing

/-!
# Addresses that do not wrap

The program counter and the address pointer have 16 bits, and arithmetic on them wraps.
It is only in one instruction that it ever does: an instruction is fetched from inside
the memory, addresses in instructions have twelve bits, what is added to them has eight,
and the address pointer is advanced only behind a block that was inside. What remains is
the sum of the address pointer and a register, which may grow without end.

What a step does to the program counter and the address pointer is therefore said here
in natural numbers, which do not wrap, by two functions that look at the state before
the step.

## Main definitions

* `Instruction.skips`, `Instruction.target`, `Instruction.pointer` — where an
  instruction leads to, and what it makes of the address pointer.
* `Machine.ComputesExactly` — a step from the machine does not wrap anything but this
  sum.

## Main results

* `Instruction.pc_of_execute`, `Instruction.index_of_execute` — what an instruction
  computes.
* `Machine.computesExactly` — this holds of every machine.
-/

namespace Chip8

/-- A sum of 16 bits is that of the numbers, unless it wraps. -/
theorem toNat_add_of_lt {a b : UInt16} (hSum : a.toNat + b.toNat < 65536) :
    (a + b).toNat = a.toNat + b.toNat :=
  (UInt16.toNat_add a b).trans (Nat.mod_eq_of_lt hSum)

namespace Instruction

/-- The instruction skips the one behind it, if it does not fail. -/
def skips (i : Instruction) (c : Core) : Bool :=
  match i.operation with
  | .skipEqValue => c.registers.get i.x = i.nn
  | .skipNeValue => c.registers.get i.x ≠ i.nn
  | .skipEqRegister => c.registers.get i.x = c.registers.get i.y
  | .skipNeRegister => c.registers.get i.x ≠ c.registers.get i.y
  | .skipKey => c.keypad.isPressed (c.registers.get i.x)
  | .skipNotKey => !c.keypad.isPressed (c.registers.get i.x)
  | _ => false

/-- Where the program counter points behind an instruction that stands at it, in numbers
that do not wrap. -/
def target (i : Instruction) (c : Core) : Nat :=
  match i.operation with
  | .jump | .call => i.nnn.toNat
  | .jumpOffset => i.nnn.toNat + (c.registers.get Register.zero).toNat
  | .ret =>
    match c.stack with
    | [] => c.pc.toNat
    | frame :: _ => frame.returnAddress.toNat
  | _ => if i.skips c then c.pc.toNat + 2 + 2 else c.pc.toNat + 2

/-- What the address pointer is behind an instruction, in numbers that do not wrap. -/
def pointer (i : Instruction) (c : Core) : Nat :=
  match i.operation with
  | .loadIndex => i.nnn.toNat
  | .addIndex => c.index.toNat + (c.registers.get i.x).toNat
  | .fontIndex => 5 * (c.registers.get i.x).toNat
  | .storeRegisters => c.index.toNat + (i.x.val + 1)
  | _ => c.index.toNat

private theorem pointer_congr {c d : Core} (i : Instruction) (hIndex : c.index = d.index)
    (hRegisters : c.registers = d.registers) : i.pointer c = i.pointer d := by
  unfold pointer
  rw [hIndex, hRegisters]

theorem toNat_nnn_le (i : Instruction) : i.nnn.toNat ≤ 0xFFF := by
  rw [nnn, UInt16.toNat_ofNat']
  omega

variable {i : Instruction} {c after : Core}

private theorem toNat_pc_advance (hInside : c.pc.toNat ≤ 0xFFE) :
    c.advance.pc.toNat = c.pc.toNat + 2 :=
  toNat_add_of_lt (Nat.lt_of_le_of_lt (Nat.add_le_add_right hInside 2) (by decide))

private theorem toNat_pc_skipIf (hInside : c.pc.toNat ≤ 0xFFE) (condition : Bool) :
    (c.advance.skipIf condition).pc.toNat =
      if condition then c.pc.toNat + 2 + 2 else c.pc.toNat + 2 := by
  have hBehind := toNat_pc_advance hInside
  cases condition with
  | false => exact hBehind
  | true =>
      have hSum : c.advance.pc.toNat + (2 : UInt16).toNat < 65536 := by
        rw [hBehind]
        exact Nat.lt_of_le_of_lt (Nat.add_le_add_right (Nat.add_le_add_right hInside 2) 2)
          (by decide)
      exact (toNat_add_of_lt hSum).trans (congrArg (· + 2) hBehind)

open Change

private theorem eq_of_keyIn {r : Register} {key : UInt8}
    (hDone : (keyIn r).on c = (.ok key, after)) :
    key = c.registers.get r ∧ after = c := by
  rw [on_keyIn] at hDone
  by_cases hKey : (c.registers.get r).toNat < 16
  · rw [if_pos hKey] at hDone
    exact ⟨(Except.ok.inj (Prod.mk.inj hDone).1).symm, (Prod.mk.inj hDone).2.symm⟩
  · rw [if_neg hKey] at hDone
    exact absurd (Prod.mk.inj hDone).1 (by simp)

/-- What is left by an instruction that skips if a key is pressed. -/
theorem eq_of_execute_skipKey (hOp : i.operation = .skipKey)
    (hDone : i.execute.on c = (.ok (), after)) :
    after = if c.keypad.isPressed (c.registers.get i.x) then
      (c.release (c.registers.get i.x)).skipIf true else c := by
  unfold execute at hDone
  rw [on_bind_of_ok (on_get c)] at hDone
  simp only [hOp] at hDone
  rcases on_bind_eq_ok_iff.1 hDone with ⟨key, between, hKey, hRest⟩
  rcases eq_of_keyIn hKey with ⟨rfl, rfl⟩
  cases hPressed : between.keypad.isPressed (between.registers.get i.x) with
  | true =>
      rw [if_pos hPressed] at hRest
      exact (Prod.mk.inj hRest).2.symm
  | false =>
      rw [if_neg (Bool.eq_false_iff.1 hPressed)] at hRest
      exact (Prod.mk.inj hRest).2.symm

/-- What is left by an instruction that skips if a key is not pressed. -/
theorem eq_of_execute_skipNotKey (hOp : i.operation = .skipNotKey)
    (hDone : i.execute.on c = (.ok (), after)) :
    after = if c.keypad.isPressed (c.registers.get i.x) then
      c.release (c.registers.get i.x) else c.skipIf true := by
  unfold execute at hDone
  rw [on_bind_of_ok (on_get c)] at hDone
  simp only [hOp] at hDone
  rcases on_bind_eq_ok_iff.1 hDone with ⟨key, between, hKey, hRest⟩
  rcases eq_of_keyIn hKey with ⟨rfl, rfl⟩
  cases hPressed : between.keypad.isPressed (between.registers.get i.x) with
  | true =>
      rw [if_pos hPressed] at hRest
      exact (Prod.mk.inj hRest).2.symm
  | false =>
      rw [if_neg (Bool.eq_false_iff.1 hPressed)] at hRest
      exact (Prod.mk.inj hRest).2.symm

/-- A block that is written was inside the memory, and the address pointer stays at
it. -/
theorem inside_of_writeBlock {address : UInt16} {bytes : List UInt8}
    (hDone : (writeBlock address bytes).on c = (.ok (), after)) :
    address.toNat + bytes.length ≤ memorySize ∧ after.index = c.index := by
  rcases exists_of_writeBlock hDone with ⟨old, hBlock, rfl⟩
  exact ⟨(Memory.block_eq_ok_iff.1 hBlock).1, rfl⟩

/-- Where an instruction leads to that was fetched and does not fail. -/
theorem pc_of_execute (hInside : c.pc.toNat ≤ 0xFFE)
    (hDone : i.execute.on c.advance = (.ok (), after)) : after.pc.toNat = i.target c := by
  have hSameKey : c.advance.keypad.isPressed (c.advance.registers.get i.x) =
      c.keypad.isPressed (c.registers.get i.x) := rfl
  by_cases hTouched : .pc ∈ i.operation.touched
  · unfold execute at hDone
    rw [on_bind_of_ok (on_get c.advance)] at hDone
    cases hOp : i.operation with
    | jump | call =>
        simp only [hOp] at hDone
        rw [← (Prod.mk.inj hDone).2, target, hOp]
    | jumpOffset =>
        simp only [hOp] at hDone
        have hOffset := (c.registers.get Register.zero).toNat_lt
        have hSum : i.nnn.toNat + (c.registers.get Register.zero).toUInt16.toNat < 65536 := by
          have hBase := i.toNat_nnn_le
          rw [UInt8.toNat_toUInt16]
          omega
        rw [← (Prod.mk.inj hDone).2, target, hOp, ← UInt8.toNat_toUInt16]
        exact toNat_add_of_lt hSum
    | ret =>
        rcases exists_frame_of_execute_ret hOp hDone with ⟨frame, hTop, hBack⟩
        have hStack : c.stack = frame :: after.stack := hTop
        rw [hBack, target, hOp, hStack]
    | skipEqValue | skipNeValue | skipEqRegister | skipNeRegister =>
        simp only [hOp] at hDone
        rw [← (Prod.mk.inj hDone).2, target, hOp, skips, hOp]
        exact toNat_pc_skipIf hInside _
    | skipKey =>
        rw [eq_of_execute_skipKey hOp hDone, hSameKey, target, hOp, skips, hOp]
        cases c.keypad.isPressed (c.registers.get i.x) with
        | true => exact toNat_pc_skipIf hInside true
        | false => exact toNat_pc_skipIf hInside false
    | skipNotKey =>
        rw [eq_of_execute_skipNotKey hOp hDone, hSameKey, target, hOp, skips, hOp]
        cases c.keypad.isPressed (c.registers.get i.x) with
        | true => exact toNat_pc_skipIf hInside false
        | false => exact toNat_pc_skipIf hInside true
    | _ => simp [hOp, Operation.touched] at hTouched
  · have hKept : after.pc = c.advance.pc := by
      simpa only [hDone] using i.leaves.pc hTouched c.advance
    rw [hKept, toNat_pc_advance hInside, target]
    cases hOp : i.operation <;> simp [hOp, Operation.touched, skips] at hTouched ⊢

/-- What an instruction makes of the address pointer, if it does not fail. -/
theorem index_of_execute (hDone : i.execute.on c = (.ok (), after)) :
    after.index.toNat =
      if i.operation = .addIndex then i.pointer c % 65536 else i.pointer c := by
  by_cases hTouched : .index ∈ i.operation.touched
  · unfold execute at hDone
    rw [on_bind_of_ok (on_get c)] at hDone
    cases hOp : i.operation with
    | loadIndex =>
        simp only [hOp] at hDone
        rw [← (Prod.mk.inj hDone).2, if_neg (by decide), pointer, hOp]
    | addIndex =>
        simp only [hOp] at hDone
        rw [← (Prod.mk.inj hDone).2, if_pos rfl, pointer, hOp, ← UInt8.toNat_toUInt16]
        exact UInt16.toNat_add c.index _
    | fontIndex =>
        simp only [hOp] at hDone
        have hSmall := (c.registers.get i.x).toNat_lt
        rw [← (Prod.mk.inj hDone).2, if_neg (by decide), pointer, hOp]
        refine (UInt16.toNat_mul 5 _).trans ?_
        rw [UInt8.toNat_toUInt16]
        exact Nat.mod_eq_of_lt (Nat.lt_of_lt_of_le (Nat.mul_lt_mul_of_pos_left hSmall (by decide))
          (by decide))
    | storeRegisters =>
        -- The address pointer is advanced behind a block that was inside the memory.
        simp only [hOp] at hDone
        rcases on_bind_eq_ok_iff.1 hDone with ⟨_, between, hBlock, hRest⟩
        rcases inside_of_writeBlock hBlock with ⟨hInside, hIndex⟩
        rw [Registers.length_through] at hInside
        have hLength : (UInt16.ofNat (i.x.val + 1)).toNat = i.x.val + 1 := by
          have hRegister := i.x.isLt
          rw [UInt16.toNat_ofNat']
          omega
        have hSum : c.index.toNat + (UInt16.ofNat (i.x.val + 1)).toNat < 65536 := by
          rw [hLength]
          exact Nat.lt_of_le_of_lt hInside (by decide)
        rw [← (Prod.mk.inj hRest).2, if_neg (by decide), pointer, hOp]
        show (between.index + UInt16.ofNat (i.x.val + 1)).toNat = c.index.toNat + (i.x.val + 1)
        rw [hIndex, toNat_add_of_lt hSum, hLength]
    | _ => simp [hOp, Operation.touched] at hTouched
  · have hKept : after.index = c.index := by
      simpa only [hDone] using i.leaves.index hTouched c
    rw [hKept, pointer]
    cases hOp : i.operation <;> simp [hOp, Operation.touched] at hTouched ⊢

end Instruction

namespace Machine

variable {m m' : Machine} {i : Instruction}

/-- An instruction that is fetched lies inside the memory for programs. -/
theorem inside_of_fetch (hFetch : m.fetch = .ok i) :
    m.pc.toNat % 2 = 0 ∧ 0x200 ≤ m.pc.toNat ∧ m.pc.toNat ≤ 0xFFE := by
  have hOn := (Core.of_fetch hFetch).1
  unfold Core.OffProgram at hOn
  omega

/-- Nothing that an instruction at the program counter computes of addresses wraps, but
for the sum of the address pointer and a register. -/
structure ComputesExactly (m : Machine) (i : Instruction) : Prop where
  /-- Fetching moves the program counter on, also where the instruction then fails. -/
  fetched : (m.pc + 2).toNat = m.pc.toNat + 2
  /-- Jumps, skips and returns. -/
  target {m' : Machine} (hStep : m.step = (m', none)) :
    m'.pc.toNat = i.target m.deliver.toCore
  /-- A call is noted with its own address and with the one behind it. -/
  called {m' : Machine} (hCall : i.operation = .call) (hStep : m.step = (m', none)) :
    ∃ frame, m'.stack = frame :: m.stack ∧ frame.caller.toNat = m.pc.toNat ∧
      frame.callee.toNat = i.nnn.toNat ∧ frame.returnAddress.toNat = m.pc.toNat + 2
  pointer {m' : Machine} (hAlone : i.operation ≠ .addIndex) (hStep : m.step = (m', none)) :
    m'.index.toNat = i.pointer m.toCore
  wrapping {m' : Machine} (hAdd : i.operation = .addIndex) (hStep : m.step = (m', none)) :
    m'.index.toNat = i.pointer m.toCore % 65536

theorem computesExactly (hFetch : m.fetch = .ok i) : m.ComputesExactly i := by
  have hInside := (inside_of_fetch hFetch).2.2
  have hBehind : (m.pc + 2).toNat = m.pc.toNat + 2 := Instruction.toNat_pc_advance hInside
  have hIndex {m' : Machine} (hStep : m.step = (m', none)) : m'.index.toNat =
      if i.operation = .addIndex then i.pointer m.toCore % 65536 else i.pointer m.toCore := by
    rcases exists_of_step_of_fetch hFetch hStep with ⟨after, hDone, rfl⟩
    have hSame : i.pointer (m.deliver.begin i).toCore = i.pointer m.toCore :=
      i.pointer_congr rfl rfl
    rw [index_conclude, ← hSame]
    exact Instruction.index_of_execute hDone
  refine ⟨hBehind, fun hStep => ?_, fun hCall hStep => ?_, fun hAlone hStep => ?_,
    fun hAdd hStep => ?_⟩
  · rcases exists_of_step_of_fetch hFetch hStep with ⟨after, hDone, rfl⟩
    rw [pc_conclude]
    exact Instruction.pc_of_execute (c := m.deliver.toCore) hInside hDone
  · exact ⟨_, stack_of_call_step hFetch hCall hStep, rfl, rfl, hBehind⟩
  · rw [hIndex hStep, if_neg hAlone]
  · rw [hIndex hStep, if_pos hAdd]

end Machine

end Chip8

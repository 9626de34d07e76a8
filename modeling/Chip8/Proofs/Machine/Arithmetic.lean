import Chip8.Proofs.Machine.Effects

/-!
# Arithmetic with a flag

Five operations put one number into a register and another one into the flag register: a
sum and its carry, a difference and whether there was no borrow, and what is left of a
number that is shifted and the bit that is lost. The flag register is an ordinary
operand as well. Both numbers come from the registers as they were before, and where the
two have to go into the same register, it is the first one that stays.

The flag register is written in front of the other one. That this makes no difference
for the numbers is because they are computed before anything is written, and it is all
that decides what stays in `VF` if that is the register of the operation too.

## Main definitions

* `Operation.results?` — the two numbers.
* `Machine.Puts` — the next step writes two numbers, and no other register.

## Main results

* `carry_add`, `borrow_sub`, `twice_shiftRight`, `toNat_shiftLeft` — how the two numbers
  belong together.
* `Instruction.on_execute_of_results` — what becomes of the two numbers.
* `Machine.flag_arithmetic` — the same of the next step, whatever registers it names.
-/

namespace Chip8

/-! ## Numbers of eight bits -/

namespace Instruction

private theorem toNat_bit (condition : Bool) : (bit condition).toNat = condition.toNat := by
  cases condition <;> rfl

private theorem bit_eq_one_iff (condition : Bool) : bit condition = 1 ↔ condition = true := by
  cases condition <;> decide

/-- The flag is the carry of the sum. -/
theorem carry_add (a b : UInt8) :
    256 * (bit (256 ≤ a.toNat + b.toNat)).toNat + (a + b).toNat = a.toNat + b.toNat := by
  have hA := a.toNat_lt
  have hB := b.toNat_lt
  rw [toNat_bit, UInt8.toNat_add]
  by_cases hCarry : 256 ≤ a.toNat + b.toNat
  · rw [decide_eq_true hCarry, Bool.toNat_true]
    omega
  · rw [decide_eq_false hCarry, Bool.toNat_false]
    omega

/-- The flag is missing where something was borrowed for the difference. -/
theorem borrow_sub (a b : UInt8) :
    ((a - b).toNat : Int) = a.toNat - b.toNat + 256 * (1 - (bit (b ≤ a)).toNat) := by
  have hA := a.toNat_lt
  have hB := b.toNat_lt
  rw [toNat_bit, UInt8.toNat_sub]
  by_cases hLe : b ≤ a
  · have hNat : b.toNat ≤ a.toNat := UInt8.le_iff_toNat_le.1 hLe
    rw [decide_eq_true hLe, Bool.toNat_true]
    omega
  · have hNat : ¬ b.toNat ≤ a.toNat := mt UInt8.le_iff_toNat_le.2 hLe
    rw [decide_eq_false hLe, Bool.toNat_false]
    omega

private theorem toNat_and_one (a : UInt8) : (a &&& 1).toNat = a.toNat % 2 :=
  (UInt8.toNat_and a 1).trans (Nat.and_one_is_mod a.toNat)

/-- The flag is the bit that is lost on the right. -/
theorem twice_shiftRight (a : UInt8) : 2 * (a >>> 1).toNat + (a &&& 1).toNat = a.toNat := by
  have hHalf : (a >>> 1).toNat = a.toNat / 2 := UInt8.toNat_shiftRight a 1
  rw [hHalf, toNat_and_one]
  omega

theorem toNat_shiftLeft (a : UInt8) : (a <<< 1).toNat = 2 * a.toNat % 256 := by
  have hShift : a.toNat <<< 1 = 2 * a.toNat := by
    rw [Nat.shiftLeft_eq, Nat.pow_one, Nat.mul_comm]
  rw [← hShift]
  exact UInt8.toNat_shiftLeft a 1

end Instruction

/-! ## The two numbers -/

open Instruction

/-- What an operation with a flag puts into its own register, and what it puts into the
flag register. -/
def Operation.results? (o : Operation) (vx vy : UInt8) : Option (UInt8 × UInt8) :=
  match o with
  | .add => some (vx + vy, bit (256 ≤ vx.toNat + vy.toNat))
  | .subtract => some (vx - vy, bit (vy ≤ vx))
  | .subtractFrom => some (vy - vx, bit (vx ≤ vy))
  | .shiftRight => some (vx >>> 1, vx &&& 1)
  | .shiftLeft => some (vx <<< 1, vx &&& 0x80)
  | _ => none

/-- The numbers come from the registers before the instruction, and the register of the
instruction is written behind the flag register. -/
theorem Instruction.on_execute_of_results {i : Instruction} {c : Core} {r f : UInt8}
    (hResults : i.operation.results? (c.registers.get i.x) (c.registers.get i.y) = some (r, f)) :
    i.execute.on c = (.ok (), (c.setFlag f).setRegister i.x r) := by
  unfold execute
  rw [Change.on_bind_of_ok (Change.on_get c)]
  cases hOp : i.operation with
  | add | subtract | subtractFrom | shiftRight | shiftLeft =>
      simp only [hOp, Operation.results?, Option.some.injEq, Prod.mk.injEq] at hResults
      rw [← hResults.1, ← hResults.2]
      rfl
  | _ => simp [hOp, Operation.results?] at hResults

namespace Machine

variable {m : Machine} {i : Instruction} {r f : UInt8}

/-- The next step does not fail. It leaves one number in a register, another one in the
flag register unless this is the same register, and every other register alone. -/
def Puts (m : Machine) (x : Register) (r f : UInt8) : Prop :=
  m.step.2 = none ∧ ∀ q, m.step.1.registers.get q =
    if q = x then r else if q = Register.flag then f else m.registers.get q

private theorem puts_of_results (hFetch : m.fetch = .ok i)
    (hResults : i.operation.results? (m.registers.get i.x) (m.registers.get i.y) = some (r, f)) :
    m.Puts i.x r f := by
  have hExecute : i.execute.on (m.deliver.begin i).toCore =
      (.ok (), ((m.deliver.begin i).setFlag f).setRegister i.x r) :=
    Instruction.on_execute_of_results hResults
  rw [Puts, step_of_execute_ok hFetch hExecute]
  refine ⟨rfl, fun q => ?_⟩
  show ((m.registers.set Register.flag f).set i.x r).get q = _
  rw [Registers.get_set, Registers.get_set]
  simp only [@eq_comm _ q]

/-- Other arithmetic has no flag: it does not fail, and leaves the flag register alone
unless this is its own register. -/
theorem flag_step_of_unflagged
    (hOp : i.operation ∈ [.or, .and, .xor, .addValue]) (hFetch : m.fetch = .ok i)
    (hOther : i.x ≠ Register.flag) :
    m.step.2 = none ∧
      m.step.1.registers.get Register.flag = m.registers.get Register.flag := by
  have hUnwritten : ¬ i.WritesRegister Register.flag := by
    unfold Instruction.WritesRegister
    cases hKind : i.operation <;> simp [hKind, hOther.symm] at hOp ⊢
  have hNoFault : m.step.2 = none := by
    rw [fault_step_of_fetch_ok hFetch, Instruction.refusal?]
    cases hKind : i.operation <;> simp [hKind, Instruction.blockLength?] at hOp ⊢
  refine ⟨hNoFault, ?_⟩
  have hStep : m.step = (m.step.1, none) := by rw [← hNoFault]
  rcases exists_of_step_of_fetch hFetch hStep with ⟨after, hDone, hLeft⟩
  have hKept := Instruction.get_of_execute hDone hUnwritten
  rw [hLeft]
  exact hKept

/-- Whatever registers the next instruction names, the flag register among them: a sum
and its carry, a difference and whether nothing was borrowed, and the two parts of a
number that is shifted are those of the numbers before the step. The register of the
instruction ends as the result, the flag register as the flag unless it is the same one,
and every other register stays. Arithmetic without a flag leaves the flag register
alone. -/
theorem flag_arithmetic (hFetch : m.fetch = .ok i) :
    (i.operation = .add → ∃ r c, m.Puts i.x r c ∧
      256 * c.toNat + r.toNat = (m.registers.get i.x).toNat + (m.registers.get i.y).toNat) ∧
    (i.operation = .subtract → ∃ r f, m.Puts i.x r f ∧
      (r.toNat : Int) = (m.registers.get i.x).toNat - (m.registers.get i.y).toNat +
        256 * (1 - f.toNat) ∧
      (f = 1 ↔ m.registers.get i.y ≤ m.registers.get i.x)) ∧
    (i.operation = .subtractFrom → ∃ r f, m.Puts i.x r f ∧
      (r.toNat : Int) = (m.registers.get i.y).toNat - (m.registers.get i.x).toNat +
        256 * (1 - f.toNat) ∧
      (f = 1 ↔ m.registers.get i.x ≤ m.registers.get i.y)) ∧
    (i.operation = .shiftRight → ∃ r f, m.Puts i.x r f ∧
      2 * r.toNat + f.toNat = (m.registers.get i.x).toNat ∧ (f = 0 ∨ f = 1)) ∧
    (i.operation = .shiftLeft → ∃ r f, m.Puts i.x r f ∧
      r.toNat = 2 * (m.registers.get i.x).toNat % 256 ∧
      f = m.registers.get i.x &&& 0x80) ∧
    (i.operation ∈ [.or, .and, .xor, .addValue] → i.x ≠ Register.flag →
      m.step.2 = none ∧
        m.step.1.registers.get Register.flag = m.registers.get Register.flag) := by
  refine ⟨fun hOp => ?_, fun hOp => ?_, fun hOp => ?_, fun hOp => ?_, fun hOp => ?_,
    fun hOp => flag_step_of_unflagged hOp hFetch⟩
  · exact ⟨_, _, puts_of_results hFetch (by rw [hOp]; rfl), carry_add _ _⟩
  · refine ⟨_, _, puts_of_results hFetch (by rw [hOp]; rfl), borrow_sub _ _, ?_⟩
    rw [bit_eq_one_iff, decide_eq_true_eq]
  · refine ⟨_, _, puts_of_results hFetch (by rw [hOp]; rfl), borrow_sub _ _, ?_⟩
    rw [bit_eq_one_iff, decide_eq_true_eq]
  · refine ⟨_, _, puts_of_results hFetch (by rw [hOp]; rfl), twice_shiftRight _, ?_⟩
    have hBit := toNat_and_one (m.registers.get i.x)
    rcases Nat.mod_two_eq_zero_or_one (m.registers.get i.x).toNat with hZero | hOne
    · exact .inl (UInt8.toNat_inj.1 (hBit.trans hZero))
    · exact .inr (UInt8.toNat_inj.1 (hBit.trans hOne))
  · exact ⟨_, _, puts_of_results hFetch (by rw [hOp]; rfl), toNat_shiftLeft _, rfl⟩

/-- A machine that adds the flag register, which holds 200, to itself. -/
def doublingFlag : Machine :=
  { Machine.start none 0 with
    memory := memoryOf [0x8F, 0xF4]
    registers := Registers.zero.set Register.flag 200
    program := [0x8F, 0xF4]
    program_fits := by decide }

/-- The carry is lost, since the sum stays in the flag register. -/
theorem flag_arithmetic_doubling_flag :
    doublingFlag.fetch = .ok ⟨⟨.add, .add, .registerRegister, none, 0x8004⟩, 0x8FF4⟩ ∧
      ∃ r c, doublingFlag.Puts Register.flag r c ∧ 256 * c.toNat + r.toNat = 400 ∧
        (doublingFlag.step.1.registers.get Register.flag).toNat = 144 := by
  have hFetch : doublingFlag.fetch =
      .ok ⟨⟨.add, .add, .registerRegister, none, 0x8004⟩, 0x8FF4⟩ :=
    Core.fetch_of_word (by decide +kernel) (by decide +kernel) (by decide +kernel)
  rcases (flag_arithmetic hFetch).1 rfl with ⟨r, c, hPuts, hSum⟩
  have hTwice : 256 * c.toNat + r.toNat = 400 := hSum
  refine ⟨hFetch, r, c, hPuts, hTwice, ?_⟩
  have hSmall := r.toNat_lt
  have hEnd : doublingFlag.step.1.registers.get Register.flag = r :=
    (hPuts.2 Register.flag).trans (if_pos rfl)
  rw [hEnd]
  omega

end Machine

end Chip8

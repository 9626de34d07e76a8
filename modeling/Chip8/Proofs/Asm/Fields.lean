import Chip8.Proofs.Asm.Word
import Mathlib.Data.List.GetD

/-!
# Operands in the fields of a word

The word of an instruction is put together with bitwise or. None of its parts overlap:
the base of an entry is zero where its operands go, and an operand that fits stays in
its field. So the word is a plain sum, its fields are the numbers of the operands, and
the remaining bits are those of the base.

## Main definitions

* `Instruction.operandNumbers` — what stands in the fields of an instruction.
* `Parts` — numbers that do not overlap in a word.

## Main results

* `Parts.or_eq` — the word of an instruction as a sum.
* `fields_of_assembledWord` — what is read from the word of an instruction.
-/

namespace Chip8

/-! ## Fields as numbers -/

/-- A number above another one. -/
theorem shiftLeft_or {a m bits : Nat} (h : a = 0 ∨ m < 2 ^ bits) :
    a <<< bits ||| m = 2 ^ bits * a + m := by
  rcases h with rfl | hm
  · rw [Nat.zero_shiftLeft, Nat.zero_or, Nat.mul_zero, Nat.zero_add]
  · rw [Nat.two_pow_add_eq_or_of_lt hm, Nat.shiftLeft_eq, Nat.mul_comm]

/-- A base and operands that do not overlap. -/
theorem or_eq_add {base r s v : Nat} (hLow : base % 4096 = 0 ∨ v = 0)
    (hs : s = 0 ∨ base % 4096 + v < 16) (hr : r = 0 ∨ 16 * s + (base % 4096 + v) < 256)
    (hAll : 256 * r + (16 * s + (base % 4096 + v)) < 4096) :
    base ||| r <<< 8 ||| s <<< 4 ||| v = base + 256 * r + 16 * s + v := by
  have hBase : base = (base / 4096) <<< 12 ||| base % 4096 := by
    rw [shiftLeft_or (.inr (by omega))]
    omega
  have hv : base % 4096 ||| v = base % 4096 + v := by
    rcases hLow with hZero | hZero <;> simp [hZero]
  have h₁ : s <<< 4 ||| (base % 4096 + v) = 16 * s + (base % 4096 + v) := shiftLeft_or hs
  have h₂ : r <<< 8 ||| (16 * s + (base % 4096 + v)) =
      256 * r + (16 * s + (base % 4096 + v)) := shiftLeft_or hr
  have h₃ : (base / 4096) <<< 12 ||| (256 * r + (16 * s + (base % 4096 + v))) =
      4096 * (base / 4096) + (256 * r + (16 * s + (base % 4096 + v))) := shiftLeft_or (.inr hAll)
  calc base ||| r <<< 8 ||| s <<< 4 ||| v
      = (base / 4096) <<< 12 ||| (r <<< 8 ||| (s <<< 4 ||| (base % 4096 ||| v))) := by
        conv_lhs => rw [hBase]
        ac_rfl
    _ = 4096 * (base / 4096) + (256 * r + (16 * s + (base % 4096 + v))) := by
        rw [hv, h₁, h₂, h₃]
    _ = base + 256 * r + 16 * s + v := by omega

/-- What stands in the fields of an instruction, in the order in which its operands are
written. A special register has no field. -/
def Instruction.operandNumbers (i : Instruction) : List Nat :=
  match i.entry.format with
  | .plain => []
  | .value => [i.nnn.toNat]
  | .register => [i.x.val]
  | .registerValue => [i.x.val, i.nn.toNat]
  | .registerRegister => [i.x.val, i.y.val]
  | .registerRegisterValue => [i.x.val, i.y.val, i.n]
  | .registerSpecial => [i.x.val, 0]
  | .specialRegister => [0, i.x.val]
  | .specialValue => [0, i.nnn.toNat]

/-- Numbers of registers and of values in the order in which kinds of operands ask for
them. -/
def numbersFor : List OperandKind → List Nat → List Nat → List Nat
  | [], _, _ => []
  | .register :: ks, registers, values =>
    registers.headD 0 :: numbersFor ks registers.tail values
  | .value :: ks, registers, values => values.headD 0 :: numbersFor ks registers values.tail
  | .special :: ks, registers, values => 0 :: numbersFor ks registers values

namespace Asm

/-! ## Operands as numbers -/

section Operands

variable {labels : String → Option Nat} {f : Format} {os : List Operand}

/-- The numbers of operands are those of the registers and of the values among them. -/
theorem forall₂_numbersFor (hFit : ∀ o ∈ os, o.Fits labels f) :
    List.Forall₂ (fun o n => o.number? labels = some n) os
      (numbersFor (os.map (·.shape.kind)) (Operand.registerNumbers os)
        (Operand.valueNumbers labels os)) := by
  induction os with
  | nil => exact List.Forall₂.nil
  | cons o os ih =>
      rw [List.forall_mem_cons] at hFit
      obtain ⟨⟨n, hn, -⟩, hRest⟩ := hFit
      have hNext := ih hRest
      cases o with
      | register l =>
          have hRegisters : Operand.registerNumbers (.register l :: os) =
              n :: Operand.registerNumbers os := List.filterMap_cons_some hn
          rw [hRegisters]
          exact List.Forall₂.cons hn hNext
      | special s => exact List.Forall₂.cons rfl hNext
      | number l =>
          have hValues : Operand.valueNumbers labels (.number l :: os) =
              n :: Operand.valueNumbers labels os := List.filterMap_cons_some hn
          rw [hValues]
          exact List.Forall₂.cons hn hNext
      | label name =>
          have hValues : Operand.valueNumbers labels (.label name :: os) =
              n :: Operand.valueNumbers labels os := List.filterMap_cons_some hn
          rw [hValues]
          exact List.Forall₂.cons hn hNext

private theorem getD_lt {bound : Nat} (hpos : 0 < bound) {ns : List Nat}
    (hAll : ∀ n ∈ ns, n < bound) (k : Nat) : ns.getD k 0 < bound := by
  by_cases hk : k < ns.length
  · rw [List.getD_eq_getElem _ _ hk]
    exact hAll _ (List.getElem_mem hk)
  · rw [List.getD_eq_default _ _ (by omega)]
    exact hpos

private theorem getD_registerNumbers_lt (hFit : ∀ o ∈ os, o.Fits labels f) (k : Nat) :
    (Operand.registerNumbers os).getD k 0 < 16 := by
  have hAll : ∀ n ∈ Operand.registerNumbers os, n < 16 := by
    intro n hn
    obtain ⟨o, ho, hNumber⟩ := List.mem_filterMap.1 hn
    obtain ⟨m, hm, hLt⟩ := hFit o ho
    cases o with
    | register l =>
        obtain rfl : m = n := Option.some.inj (hm.symm.trans hNumber)
        exact hLt
    | _ => simp [Operand.register?] at hNumber
  exact getD_lt (by decide) hAll k

private theorem getD_valueNumbers_lt (hFit : ∀ o ∈ os, o.Fits labels f) (k : Nat) :
    (Operand.valueNumbers labels os).getD k 0 < fieldSize (f.valueBits.getD 0) := by
  have hAll : ∀ n ∈ Operand.valueNumbers labels os, n < fieldSize (f.valueBits.getD 0) := by
    intro n hn
    obtain ⟨o, ho, hNumber⟩ := List.mem_filterMap.1 hn
    obtain ⟨m, hm, hLt⟩ := hFit o ho
    cases o with
    | number l =>
        obtain rfl : m = n := Option.some.inj (hm.symm.trans hNumber)
        exact hLt
    | label name =>
        obtain rfl : m = n := Option.some.inj (hm.symm.trans hNumber)
        exact hLt
    | _ => simp [Operand.value?] at hNumber
  exact getD_lt (fieldSize_pos _) hAll k

end Operands

/-! ## The word as a sum -/

/-- Numbers for the parts of a word of format `f`, none of which overlap. -/
structure Parts (f : Format) (base r s v : Nat) : Prop where
  base_lt : base % 4096 < fieldSize f.tailBits
  first_lt : r < 16
  second_lt : s < 16
  value_lt : v < fieldSize (f.valueBits.getD 0)
  first_eq : f.operands.count .register = 0 → r = 0
  second_eq : f.operands.count .register ≤ 1 → s = 0

private theorem parts_of_fits {labels : String → Option Nat} {e : Entry} (he : e ∈ opcodeTable)
    {os : List Operand} (hKinds : e.format.operands = os.map (·.shape.kind))
    (hFit : ∀ o ∈ os, o.Fits labels e.format) :
    Parts e.format e.base.toNat ((Operand.registerNumbers os).getD 0 0)
      ((Operand.registerNumbers os).getD 1 0) ((Operand.valueNumbers labels os).getD 0 0) := by
  have hLength : (Operand.registerNumbers os).length ≤ e.format.operands.count .register :=
    hKinds ▸ length_registerNumbers_le os
  exact
    { base_lt := Nat.lt_of_lt_of_le (Entry.base_mod_lt e he).1
        (fieldSize_le (Entry.base_mod_lt e he).2)
      first_lt := getD_registerNumbers_lt hFit 0
      second_lt := getD_registerNumbers_lt hFit 1
      value_lt := getD_valueNumbers_lt hFit 0
      first_eq := fun hCount => List.getD_eq_default _ _ (hCount ▸ hLength)
      second_eq := fun hCount => List.getD_eq_default _ _ (Nat.le_trans hLength hCount) }

namespace Parts

variable {f : Format} {base r s v : Nat} (h : Parts f base r s v)
include h

theorem or_eq : base ||| r <<< 8 ||| s <<< 4 ||| v = base + 256 * r + 16 * s + v := by
  obtain ⟨hBase, hr, hs, hv, hr0, hs0⟩ := h
  -- What does not overlap differs from format to format, and is arithmetic in each of them.
  apply or_eq_add <;> cases f <;>
    simp [Format.tailBits, Format.valueBits, Format.operands, fieldSize] at hBase hv hr0 hs0 <;>
    omega

/-- The bits that are not operands are those of the base. -/
theorem ends_eq {n : Nat} (hn : n = base + 256 * r + 16 * s + v) :
    n / 4096 = base / 4096 ∧ n % fieldSize f.tailBits = base % 4096 := by
  obtain ⟨hBase, hr, hs, hv, hr0, hs0⟩ := h
  cases f <;>
    simp [Format.tailBits, Format.valueBits, Format.operands, fieldSize] at hBase hv hr0 hs0 ⊢ <;>
    omega

/-- The fields hold what was put into them. -/
theorem operandNumbers_eq {e : Entry} (he : e.format = f) {w : UInt16}
    (hw : w.toNat = base + 256 * r + 16 * s + v) {registers values : List Nat}
    (hRegisters : registers.getD 0 0 = r ∧ registers.getD 1 0 = s) (hValues : values.getD 0 0 = v) :
    (⟨e, w⟩ : Instruction).operandNumbers = numbersFor f.operands registers values := by
  obtain ⟨hBase, hr, hs, hv, hr0, hs0⟩ := h
  have hFirst : registers.headD 0 = r := by
    rw [← hRegisters.1]
    cases registers <;> rfl
  have hSecond : registers.tail.headD 0 = s := by
    rw [← hRegisters.2]
    match registers with
    | [] => rfl
    | [_] => rfl
    | _ :: _ :: _ => rfl
  have hValue : values.headD 0 = v := by
    rw [← hValues]
    cases values <;> rfl
  cases f <;>
    simp [Instruction.operandNumbers, he, Instruction.x, Instruction.y, Instruction.n,
      Instruction.nn, Instruction.nnn, Format.tailBits, Format.valueBits, Format.operands,
      fieldSize, numbersFor, hFirst, hSecond, hValue, -List.headD_eq_head?_getD]
      at hBase hv hr0 hs0 ⊢ <;>
    omega

end Parts

/-- What is read from the fields of the word of an instruction are the numbers of its
operands, and the other bits are those of the base. -/
theorem fields_of_assembledWord {labels : String → Option Nat} {e : Entry} (he : e ∈ opcodeTable)
    {os : List Operand} (hKinds : e.format.operands = os.map (·.shape.kind))
    (hFit : ∀ o ∈ os, o.Fits labels e.format) {w : UInt16}
    (hw : w.toNat = assembledWord labels e os) :
    List.Forall₂ (fun o n => o.number? labels = some n) os
        (⟨e, w⟩ : Instruction).operandNumbers ∧
      w.toNat / 4096 = e.base.toNat / 4096 ∧
        w.toNat % fieldSize e.format.tailBits = e.base.toNat % 4096 := by
  have hParts := parts_of_fits he hKinds hFit
  rw [assembledWord, hParts.or_eq] at hw
  refine ⟨?_, hParts.ends_eq hw⟩
  rw [hParts.operandNumbers_eq rfl hw ⟨rfl, rfl⟩ rfl, hKinds]
  exact forall₂_numbersFor hFit

end Asm

end Chip8

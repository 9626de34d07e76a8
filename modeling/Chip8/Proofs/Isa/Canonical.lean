import Chip8.Proofs.Asm.Fields
import Chip8.Proofs.Isa.Selection

/-!
# Canonical words

Some bits of a word are neither compared by the decoder nor do they belong to an
operand: `8XY6` is decoded whatever `Y` is, but has one operand. The canonical word of
an entry has the bits of its base there. It is the word that is put together from the
operands alone.

## Main definitions

* `Entry.canonical` — a word with the bits of the base wherever the entry has no
  operands.

## Main results

* `Entry.canonical_eq_self_iff` — which words are canonical.
* `Entry.eq_canonical` — a canonical word is given by the operands in it.
-/

namespace Chip8

/-! ## The two parts of a word -/

theorem and_or_and_not (w mask : UInt16) : w &&& mask ||| w &&& ~~~mask = w := by
  apply UInt16.toBitVec_inj.1
  ext k hk
  simp only [UInt16.toBitVec_or, UInt16.toBitVec_and, UInt16.toBitVec_not, BitVec.getElem_or,
    BitVec.getElem_and, BitVec.getElem_not]
  cases w.toBitVec[k] <;> simp

/-- Bits outside a mask do not count inside it. -/
theorem or_and_not_and (a w mask : UInt16) : (a ||| w &&& ~~~mask) &&& mask = a &&& mask := by
  apply UInt16.toBitVec_inj.1
  ext k hk
  simp only [UInt16.toBitVec_or, UInt16.toBitVec_and, UInt16.toBitVec_not, BitVec.getElem_or,
    BitVec.getElem_and, BitVec.getElem_not]
  cases mask.toBitVec[k] <;> simp

/-- The bits outside a mask, as a number. -/
theorem toNat_and_not (w mask : UInt16) :
    (w &&& ~~~mask).toNat = w.toNat - (w &&& mask).toNat := by
  have hDisjoint : (w &&& mask).toBitVec &&& (w &&& ~~~mask).toBitVec = 0 := by
    ext k hk
    simp only [UInt16.toBitVec_and, UInt16.toBitVec_not, BitVec.getElem_and, BitVec.getElem_not]
    cases mask.toBitVec[k] <;> simp
  have hSum := BitVec.toNat_add_of_and_eq_zero hDisjoint
  rw [BitVec.add_eq_or_of_and_eq_zero _ _ hDisjoint, ← UInt16.toBitVec_or, and_or_and_not] at hSum
  simp only [UInt16.toNat_toBitVec] at hSum
  omega

namespace Entry

/-- The word with the bits of the base wherever the entry has no operands. -/
def canonical (e : Entry) (w : UInt16) : UInt16 := e.base ||| (w &&& ~~~e.format.mask)

/-- A base has no bits in an operand. -/
theorem base_and_mask {e : Entry} (he : e ∈ opcodeTable) : e.base &&& e.format.mask = e.base := by
  obtain ⟨hBase, hMask⟩ := base_and_masks e he
  calc e.base &&& e.format.mask = e.base &&& (e.dispatchMask &&& e.format.mask) := by
        rw [← UInt16.and_assoc, hBase]
    _ = e.base := by rw [hMask, hBase]

/-- A word is canonical if it agrees with the base wherever it has no operands. -/
theorem canonical_eq_self_iff {e : Entry} (he : e ∈ opcodeTable) {w : UInt16} :
    e.canonical w = w ↔ w &&& e.format.mask = e.base := by
  constructor
  · intro h
    calc w &&& e.format.mask = e.canonical w &&& e.format.mask := by rw [h]
      _ = e.base := by rw [canonical, or_and_not_and, base_and_mask he]
  · intro h
    rw [canonical, ← h, and_or_and_not]

/-- The bits of operands are given by the numbers that the operands denote. -/
theorem operandBits_eq {e : Entry} {a b : UInt16}
    (h : (⟨e, a⟩ : Instruction).operandNumbers = (⟨e, b⟩ : Instruction).operandNumbers) :
    a &&& ~~~e.format.mask = b &&& ~~~e.format.mask := by
  have hNat : a.toNat % 4096 - a.toNat % fieldSize e.format.tailBits =
      b.toNat % 4096 - b.toNat % fieldSize e.format.tailBits := by
    cases hFormat : e.format <;>
      simp [Instruction.operandNumbers, hFormat, Instruction.x, Instruction.y, Instruction.n,
        Instruction.nn, Instruction.nnn, Format.tailBits, fieldSize] at h ⊢ <;>
      omega
  apply UInt16.toNat_inj.1
  rw [toNat_and_not, toNat_and_not, e.format.mask_eq,
    toNat_and_endsMask a e.format.tailBits_le, toNat_and_endsMask b e.format.tailBits_le]
  omega

/-- A word with the base of an entry around its operands is the canonical one. -/
theorem eq_canonical {e : Entry} {w w' : UInt16}
    (hLead : w'.toNat / 4096 = e.base.toNat / 4096)
    (hTail : w'.toNat % fieldSize e.format.tailBits = e.base.toNat % 4096)
    (hNumbers : (⟨e, w'⟩ : Instruction).operandNumbers = (⟨e, w⟩ : Instruction).operandNumbers) :
    w' = e.canonical w := by
  have hEnds : w' &&& e.format.mask = e.base := by
    apply UInt16.toNat_inj.1
    rw [e.format.mask_eq, toNat_and_endsMask w' e.format.tailBits_le, hLead, hTail]
    omega
  calc w' = w' &&& e.format.mask ||| w' &&& ~~~e.format.mask := (and_or_and_not _ _).symm
    _ = e.canonical w := by rw [hEnds, operandBits_eq hNumbers, canonical]

end Entry

end Chip8

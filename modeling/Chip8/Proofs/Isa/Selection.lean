import Chip8.Isa.Instruction
import Mathlib.Algebra.Group.Nat.Defs

/-!
# Selecting entries of the opcode table

The table is searched in two directions. What is written (mnemonic, kinds of operands,
special register) belongs to at most one entry, so that the order of the table does not
matter there. A word may match two entries, but only if one of them is that of
`SYSCALL`, and then the order decides for the other one.

Both masks of an entry, the bits that select it and the bits that are not operands, have
the same form: the leading digit of a word and some of its low bits. Taking the masked
bits of a word is therefore plain arithmetic (`toNat_and_endsMask`).

## Main definitions

* `endsMask` — the mask of the leading digit and a number of low bits.
* `Entry.selectorBits`, `Format.tailBits` — the number of low bits in the two masks.

## Main results

* `lookup?_eq_some_iff`, `arity?_eq_some` — from what is written to the entry.
* `matches_iff`, `find?_eq_some_iff` — from a word to its entry.
-/

namespace Chip8

/-! ## Masks -/

/-- The leading digit of a word and its lowest `bits` bits. -/
def endsMask (bits : Nat) : UInt16 := 0xF000 ||| UInt16.ofNat (fieldSize bits - 1)

theorem fieldSize_eq (bits : Nat) : fieldSize bits = 2 ^ bits := by
  simp [fieldSize, Nat.shiftLeft_eq]

theorem fieldSize_pos (bits : Nat) : 0 < fieldSize bits := by
  rw [fieldSize_eq]
  exact Nat.two_pow_pos bits

theorem fieldSize_le {a b : Nat} (h : a ≤ b) : fieldSize a ≤ fieldSize b := by
  rw [fieldSize_eq, fieldSize_eq]
  exact Nat.pow_le_pow_right (by omega) h

/-- The leading digit of a number below `2^16`. -/
private theorem and_leadingDigit {n : Nat} (h : n < 65536) : n &&& 0xF000 = n / 4096 * 4096 := by
  have hmask : (0xF000 : Nat) = (2 ^ 4 - 1) <<< 12 := by decide
  have hdigit : n / 4096 * 4096 = (n >>> 12) <<< 12 := by
    rw [Nat.shiftRight_eq_div_pow, Nat.shiftLeft_eq]
  rw [hmask, hdigit]
  apply Nat.eq_of_testBit_eq
  intro i
  rw [Nat.testBit_and, Nat.testBit_shiftLeft, Nat.testBit_shiftLeft, Nat.testBit_two_pow_sub_one,
    Nat.testBit_shiftRight]
  by_cases hLow : 12 ≤ i
  · have hi : 12 + (i - 12) = i := by omega
    by_cases hhigh : i - 12 < 4
    · simp [hLow, hhigh, hi]
    · have hi16 : 16 ≤ i := by omega
      have hbig : n < 2 ^ i := Nat.lt_of_lt_of_le h (Nat.pow_le_pow_right Nat.two_pos hi16)
      simp [hhigh, hi, Nat.testBit_lt_two_pow hbig]
  · simp [hLow]

/-- The masked bits of a word: its leading digit and its remainder. -/
theorem toNat_and_endsMask (word : UInt16) {bits : Nat} (h : bits ≤ 12) :
    (word &&& endsMask bits).toNat =
      word.toNat / 4096 * 4096 + word.toNat % fieldSize bits := by
  have hSize := fieldSize_le h
  have hPos := fieldSize_pos bits
  have h12 : fieldSize 12 = 4096 := by decide
  have hMod : word.toNat % fieldSize bits < 2 ^ 12 := by
    have := Nat.mod_lt word.toNat hPos
    omega
  have hTail : (UInt16.ofNat (fieldSize bits - 1)).toNat = fieldSize bits - 1 := by
    rw [UInt16.toNat_ofNat']
    omega
  have hLead : (0xF000 : UInt16).toNat = 0xF000 := rfl
  rw [endsMask, UInt16.toNat_and, UInt16.toNat_or, hTail, hLead, Nat.and_or_distrib_left,
    and_leadingDigit word.toNat_lt]
  have hLow : word.toNat &&& (fieldSize bits - 1) = word.toNat % fieldSize bits := by
    rw [fieldSize_eq, Nat.and_two_pow_sub_one_eq_mod]
  have hSum := Nat.two_pow_add_eq_or_of_lt hMod (word.toNat / 4096)
  rw [hLow, Nat.mul_comm]
  exact hSum.symm

/-- The number of low bits of a word that do not belong to an operand. -/
def Format.tailBits : Format → Nat
  | plain => 12
  | register => 8
  | registerSpecial => 8
  | specialRegister => 8
  | registerRegister => 4
  | _ => 0

theorem Format.tailBits_le (f : Format) : f.tailBits ≤ 12 := by
  cases f <;> decide

theorem Format.mask_eq (f : Format) : f.mask = endsMask f.tailBits := by
  cases f <;> decide

namespace Entry

/-- The number of low bits that the decoder compares, besides the leading digit. -/
def selectorBits (e : Entry) : Nat :=
  let family := e.base >>> 12
  if family = 0x0 ∧ e.format = .plain then 8
  else if family = 0x8 then 4
  else if family = 0xE ∨ family = 0xF then 8
  else 0

private theorem selectorBits_le (e : Entry) : e.selectorBits ≤ 12 := by
  unfold selectorBits
  grind

private theorem dispatchMask_eq (e : Entry) : e.dispatchMask = endsMask e.selectorBits := by
  unfold dispatchMask selectorBits
  dsimp only
  split
  · rfl
  · split
    · rfl
    · split <;> rfl

/-- The decoder compares all low bits of a base, and none of an operand. -/
theorem base_mod_lt :
    ∀ e ∈ opcodeTable, e.base.toNat % 4096 < fieldSize e.selectorBits ∧
      e.selectorBits ≤ e.format.tailBits := by
  decide

/-- A word matches an entry if it has the leading digit and the low bits of the base. -/
theorem matches_iff {e : Entry} (he : e ∈ opcodeTable) {word : UInt16} :
    e.Matches word ↔ word.toNat / 4096 = e.base.toNat / 4096 ∧
      word.toNat % fieldSize e.selectorBits = e.base.toNat % 4096 := by
  have hLow := (base_mod_lt e he).1
  have hSize := fieldSize_le e.selectorBits_le
  have h12 : fieldSize 12 = 4096 := by decide
  have hMod := Nat.mod_lt word.toNat (fieldSize_pos e.selectorBits)
  rw [Matches, dispatchMask_eq, ← UInt16.toNat_inj, toNat_and_endsMask word e.selectorBits_le]
  omega

/-! ## From a word to its entry -/

/-- Entries with the same leading digit are told apart by the same low bits, `SYSCALL`
excepted. -/
private theorem eq_of_same_family :
    ∀ e ∈ opcodeTable, ∀ e' ∈ opcodeTable, e.base.toNat / 4096 = e'.base.toNat / 4096 →
      e.operation = .sys ∨ e'.operation = .sys ∨
        (e.selectorBits = e'.selectorBits ∧
          (e.base.toNat % 4096 = e'.base.toNat % 4096 → e = e')) := by
  decide

/-- The entries that share the leading digit of `SYSCALL`. -/
private theorem sys_family :
    ∀ e ∈ opcodeTable, ∀ e' ∈ opcodeTable, e.operation = .sys →
      e.base.toNat / 4096 = e'.base.toNat / 4096 →
        e = e' ∨ (e'.selectorBits = 8 ∧
          (e'.base.toNat % 4096 = 0xE0 ∨ e'.base.toNat % 4096 = 0xEE)) := by
  decide

/-- Of the entries that a word matches, only that of `SYSCALL` gives way to another
one. -/
def Selects (e : Entry) (word : UInt16) : Prop :=
  e.Matches word ∧
    (e.operation = .sys → word.toNat % 256 ≠ 0xE0 ∧ word.toNat % 256 ≠ 0xEE)

/-- An entry in front of which `SYSCALL` gives way. -/
private theorem eq_of_selects_sys {e e' : Entry} {word : UInt16} (he : e ∈ opcodeTable)
    (he' : e' ∈ opcodeTable) (hs : e.Selects word) (hs' : e'.Selects word)
    (hSys : e.operation = .sys) : e = e' := by
  obtain ⟨hLead, -⟩ := (matches_iff he).1 hs.1
  obtain ⟨hLead', hLow'⟩ := (matches_iff he').1 hs'.1
  obtain ⟨hE0, hEE⟩ := hs.2 hSys
  have h8 : fieldSize 8 = 256 := by decide
  rcases sys_family e he e' he' hSys (by omega) with hEq | ⟨hBits, hBase⟩
  · exact hEq
  · rw [hBits, h8] at hLow'
    omega

/-- A word selects at most one entry. -/
theorem eq_of_selects {e e' : Entry} {word : UInt16} (he : e ∈ opcodeTable)
    (he' : e' ∈ opcodeTable) (hs : e.Selects word) (hs' : e'.Selects word) : e = e' := by
  obtain ⟨hLead, hLow⟩ := (matches_iff he).1 hs.1
  obtain ⟨hLead', hLow'⟩ := (matches_iff he').1 hs'.1
  rcases eq_of_same_family e he e' he' (by omega) with hSys | hSys | ⟨hBits, hEq⟩
  · exact eq_of_selects_sys he he' hs hs' hSys
  · exact (eq_of_selects_sys he' he hs' hs hSys).symm
  · rw [← hBits] at hLow'
    exact hEq (by omega)

/-- The entry of `CLS`, the first of the table. -/
def clearScreenEntry : Entry := ⟨.clearScreen, .cls, .plain, none, 0x00E0⟩

/-- The entry of `RET`, the second of the table. -/
def returnEntry : Entry := ⟨.ret, .ret, .plain, none, 0x00EE⟩

private theorem opcodeTable_eq : ∃ rest, opcodeTable = clearScreenEntry :: returnEntry :: rest :=
  ⟨_, rfl⟩

/-- The entry that is found is selected: a word that `CLS` or `RET` matches does not get
as far as `SYSCALL`. -/
theorem selects_of_find? {word : UInt16} {e : Entry} (h : find? word = some e) :
    e ∈ opcodeTable ∧ e.Selects word := by
  have hMem : e ∈ opcodeTable := List.mem_of_find?_eq_some h
  have hMatch : e.Matches word := by simpa using List.find?_some h
  refine ⟨hMem, hMatch, fun hSys => ?_⟩
  obtain ⟨rest, hTable⟩ := opcodeTable_eq
  have hLead : word.toNat / 4096 = 0 := by
    have hFamily : ∀ e ∈ opcodeTable, e.operation = .sys → e.base.toNat / 4096 = 0 := by decide
    rw [((matches_iff hMem).1 hMatch).1, hFamily e hMem hSys]
  have h8 : fieldSize 8 = 256 := by decide
  have hFirst : ¬ clearScreenEntry.Matches word := by
    intro hCls
    rw [find?, hTable, List.find?_cons_of_pos (by simpa using hCls)] at h
    obtain rfl := Option.some.inj h
    exact absurd hSys (by decide)
  have hSecond : ¬ returnEntry.Matches word := by
    intro hRet
    rw [find?, hTable, List.find?_cons_of_neg (by simpa using hFirst),
      List.find?_cons_of_pos (by simpa using hRet)] at h
    obtain rfl := Option.some.inj h
    exact absurd hSys (by decide)
  rw [matches_iff (by decide)] at hFirst hSecond
  have hBits : clearScreenEntry.selectorBits = 8 ∧ returnEntry.selectorBits = 8 ∧
      clearScreenEntry.base.toNat = 0xE0 ∧ returnEntry.base.toNat = 0xEE := by decide
  obtain ⟨hb, hb', hBase, hBase'⟩ := hBits
  rw [hb, hBase, h8] at hFirst
  rw [hb', hBase', h8] at hSecond
  omega

/-- The decoder finds exactly the entry that a word selects. -/
theorem find?_eq_some_iff {word : UInt16} {e : Entry} :
    find? word = some e ↔ e ∈ opcodeTable ∧ e.Selects word := by
  constructor
  · exact selects_of_find?
  · intro hGiven
    rcases hGiven with ⟨hMem, hs⟩
    have hSome : (find? word).isSome := by
      rw [find?, List.find?_isSome]
      exact ⟨e, hMem, by simpa using hs.1⟩
    obtain ⟨e', hFound⟩ := Option.isSome_iff_exists.1 hSome
    obtain ⟨hMem', hs'⟩ := selects_of_find? hFound
    rw [hFound, eq_of_selects hMem' hMem hs' hs]

/-! ## From what is written to its entry -/

/-- Where at most one entry has a property, the order of a search does not matter. -/
theorem find?_iff_of_unique {p : Entry → Bool} {l : List Entry}
    (hUnique : ∀ a ∈ l, ∀ b ∈ l, p a → p b → a = b) {e : Entry} :
    l.find? p = some e ↔ e ∈ l ∧ p e := by
  constructor
  · intro h
    exact ⟨List.mem_of_find?_eq_some h, List.find?_some h⟩
  · intro hGiven
    rcases hGiven with ⟨hMem, hp⟩
    obtain ⟨e', hFound⟩ := Option.isSome_iff_exists.1 (List.find?_isSome.2 ⟨e, hMem, hp⟩)
    have hMem' := List.mem_of_find?_eq_some hFound
    rw [hFound, hUnique e' hMem' e hMem (List.find?_some hFound) hp]

/-- The entry of an instruction as it is written is the one with its mnemonic, format
and special register. -/
theorem lookup?_eq_some_iff {mnemonic : Ident} {format : Format} {special : Option Special}
    {e : Entry} : lookup? mnemonic format special = some e ↔
      e ∈ opcodeTable ∧ some e.mnemonic = mnemonic.mnemonic? ∧ e.format = format ∧
        e.special = special := by
  rw [lookup?, find?_iff_of_unique]
  · simp
  · intro a ha b hb hpa hpb
    simp only [decide_eq_true_eq] at hpa hpb
    obtain ⟨hma, hfa, hsa⟩ := hpa
    obtain ⟨hmb, hfb, hsb⟩ := hpb
    exact eq_of_written a ha b hb (Option.some.inj (hma.trans hmb.symm)) (hfa.trans hfb.symm)
      (hsa.trans hsb.symm)

theorem mem_named {mnemonic : Ident} {e : Entry} :
    e ∈ named mnemonic ↔ e ∈ opcodeTable ∧ some e.mnemonic = mnemonic.mnemonic? := by
  simp [named]

/-- The number of operands of a mnemonic is that of each of its entries. -/
theorem arity?_eq_some {mnemonic : Ident} {e : Entry} (he : e ∈ named mnemonic) :
    arity? mnemonic = some e.format.operands.length := by
  unfold arity?
  cases hNamed : named mnemonic with
  | nil => simp [hNamed] at he
  | cons first rest =>
      have hFirst : first ∈ named mnemonic := by simp [hNamed]
      obtain ⟨hMem, hm⟩ := mem_named.1 he
      obtain ⟨hMem', hm'⟩ := mem_named.1 hFirst
      have hArity := uniform_arity first hMem' e hMem (Option.some.inj (hm'.trans hm.symm))
      simp [hArity]

end Entry

end Chip8

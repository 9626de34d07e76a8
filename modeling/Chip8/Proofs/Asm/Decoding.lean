import Chip8.Proofs.Asm.Assembling
import Chip8.Proofs.Asm.Fields

/-!
# Decoding what was assembled

The word of an instruction matches the entry that the instruction was written with, and
its fields hold the operands. The decoder takes the first entry that matches, and of the
entries that match one word only that of `SYSCALL` can come too late: its value covers
the words of `CLS` and `RET`. So the decoder finds the instruction that was written,
except for a `SYSCALL` whose value ends in `E0` or `EE`, which it takes for a `CLS` or a
`RET`.

## Main results

* `decode?_assembledWord`, `decode?_assembledWord_sys` — what one word is decoded as.
* `decode?_of_ofSource` — what the words of a program are decoded as.
-/

namespace Chip8

namespace Entry

/-- A word with the leading digit of a base, and with those of its other bits that are
not operands, matches the entry of that base. -/
theorem matches_of_ends {e : Entry} (he : e ∈ opcodeTable) {w : UInt16}
    (hLead : w.toNat / 4096 = e.base.toNat / 4096)
    (hTail : w.toNat % fieldSize e.format.tailBits = e.base.toNat % 4096) : e.Matches w := by
  obtain ⟨hLt, hLe⟩ := base_mod_lt e he
  have hDvd : fieldSize e.selectorBits ∣ fieldSize e.format.tailBits := by
    rw [fieldSize_eq, fieldSize_eq]
    exact Nat.pow_dvd_pow 2 hLe
  refine (matches_iff he).2 ⟨hLead, ?_⟩
  calc w.toNat % fieldSize e.selectorBits
      = w.toNat % fieldSize e.format.tailBits % fieldSize e.selectorBits :=
        (Nat.mod_mod_of_dvd _ hDvd).symm
    _ = e.base.toNat % 4096 := by rw [hTail, Nat.mod_eq_of_lt hLt]

/-- A word that matches `SYSCALL` is decoded as `CLS` or `RET` if its low byte says
so. -/
theorem find?_of_matches_sys {e : Entry} (he : e ∈ opcodeTable) (hSys : e.operation = .sys)
    {w : UInt16} (hMatch : e.Matches w) :
    (w.toNat % 256 = 0xE0 → find? w = some clearScreenEntry) ∧
      (w.toNat % 256 = 0xEE → find? w = some returnEntry) := by
  have hZero : w.toNat / 4096 = 0 := by
    have hFamily : ∀ e ∈ opcodeTable, e.operation = .sys → e.base.toNat / 4096 = 0 := by decide
    rw [((matches_iff he).1 hMatch).1, hFamily e he hSys]
  have hPlain : ∀ other ∈ opcodeTable, other.selectorBits = 8 → other.operation ≠ .sys →
      other.base.toNat / 4096 = 0 → w.toNat % 256 = other.base.toNat % 4096 →
        find? w = some other := by
    intro other hMem hBits hOperation hBase hLow
    have hMatches : other.Matches w :=
      (matches_iff hMem).2 ⟨hZero.trans hBase.symm, by rw [hBits]; exact hLow⟩
    exact find?_eq_some_iff.2 ⟨hMem, hMatches, fun h => absurd h hOperation⟩
  exact ⟨hPlain clearScreenEntry (by decide) (by decide) (by decide) (by decide),
    hPlain returnEntry (by decide) (by decide) (by decide) (by decide)⟩

end Entry

namespace Asm

section Words

variable {labels : String → Option Nat} {e : Entry} (he : e ∈ opcodeTable) {os : List Operand}
  (hKinds : e.format.operands = os.map (·.shape.kind)) (hFit : ∀ o ∈ os, o.Fits labels e.format)
  {w : UInt16} (hw : w.toNat = assembledWord labels e os)
include he hKinds hFit hw

/-- The word of `SYSCALL` is its value. -/
theorem valueNumbers_sys (hSys : e.operation = .sys) :
    Operand.valueNumbers labels os = [w.toNat] := by
  have hTable : ∀ e ∈ opcodeTable, e.operation = .sys → e.base = 0 ∧ e.format = .value := by
    decide
  obtain ⟨hBase, hFormat⟩ := hTable e he hSys
  rw [hFormat] at hKinds
  obtain ⟨o, _, rfl, hKind, hRest⟩ := List.map_eq_cons_iff.1 hKinds.symm
  obtain rfl := List.map_eq_nil_iff.1 hRest
  obtain ⟨v, hv, -⟩ := hFit o (List.mem_singleton_self o)
  have hNumbers : Operand.valueNumbers labels [o] = [v] ∧ Operand.registerNumbers [o] = [] := by
    cases o with
    | register l => simp [Operand.shape] at hKind
    | special s => simp [Operand.shape] at hKind
    | number l => exact ⟨List.filterMap_cons_some hv, rfl⟩
    | label name => exact ⟨List.filterMap_cons_some hv, rfl⟩
  rw [hw, assembledWord, hNumbers.1, hNumbers.2, hBase]
  simp

private theorem matches_assembledWord : e.Matches w := by
  obtain ⟨-, hLead, hTail⟩ := fields_of_assembledWord he hKinds hFit hw
  exact Entry.matches_of_ends he hLead hTail

/-- The decoder finds the entry and the operands that an instruction was written
with. -/
theorem decode?_assembledWord (hValue : e.operation = .sys →
      ∀ v ∈ Operand.valueNumbers labels os, v % 256 ≠ 0xE0 ∧ v % 256 ≠ 0xEE) :
    Instruction.decode? w = some ⟨e, w⟩ ∧
      List.Forall₂ (fun o n => o.number? labels = some n) os
        (⟨e, w⟩ : Instruction).operandNumbers := by
  have hSelects : e.Selects w := by
    refine ⟨matches_assembledWord he hKinds hFit hw, fun hSys => hValue hSys _ ?_⟩
    rw [valueNumbers_sys he hKinds hFit hw hSys]
    exact List.mem_singleton_self _
  exact ⟨Instruction.decode?_eq_some_iff.2 ⟨Entry.find?_eq_some_iff.2 ⟨he, hSelects⟩, rfl⟩,
    (fields_of_assembledWord he hKinds hFit hw).1⟩

/-- A `SYSCALL` whose value ends like the word of `CLS` or `RET` is taken for that
one. -/
theorem decode?_assembledWord_sys (hSys : e.operation = .sys) {v : Nat}
    (hv : v ∈ Operand.valueNumbers labels os) :
    (v % 256 = 0xE0 → Instruction.decode? w = some ⟨.clearScreenEntry, w⟩) ∧
      (v % 256 = 0xEE → Instruction.decode? w = some ⟨.returnEntry, w⟩) := by
  rw [valueNumbers_sys he hKinds hFit hw hSys, List.mem_singleton] at hv
  obtain ⟨hCls, hRet⟩ :=
    Entry.find?_of_matches_sys he hSys (matches_assembledWord he hKinds hFit hw)
  rw [hv]
  exact ⟨fun h => Instruction.decode?_eq_some_iff.2 ⟨hCls h, rfl⟩,
    fun h => Instruction.decode?_eq_some_iff.2 ⟨hRet h, rfl⟩⟩

end Words

/-- The bytes of an instruction lie in the image where its offset says. -/
theorem bytes_of_ofStatements {statements : List Statement} (hReads : ReadsAs statements)
    {keepSymbols : Bool} {o : ObjectFile}
    (h : ObjectFile.ofStatements keepSymbols statements = .ok o) {c : Command}
    (hc : c ∈ commandsOf statements) :
    ∃ w, c.Assembles (labelAddress? statements) w ∧ programStart ≤ c.offset.toNat ∧
      o.image[c.offset.toNat - programStart]? = some (highByte w) ∧
        o.image[c.offset.toNat - programStart + 1]? = some (lowByte w) := by
  obtain ⟨k, hk, rfl⟩ := List.getElem_of_mem hc
  have hWords := ObjectFile.wordsOf_of_ofStatements hReads h
  have hk' : k < (wordsOf o.image).length := hWords.length_eq ▸ hk
  have hOffset := toNat_offset_of_laid hReads.laid (List.getElem?_eq_getElem hk) (by
    have hFits := o.fits
    have hLength := ObjectFile.length_of_ofStatements hReads h
    have hCapacity : programCapacity = 3584 := rfl
    have hStart : (UInt16.ofNat programStart).toNat = 512 := rfl
    omega)
  have hPlace : (commandsOf statements)[k].offset.toNat - programStart = 2 * k := by
    rw [hOffset]
    exact Nat.add_sub_cancel_left _ _
  refine ⟨(wordsOf o.image)[k], hWords.get hk hk', ?_, ?_⟩
  · rw [hOffset]
    exact Nat.le_add_right _ _
  · have hWord := getElem?_wordsOf o.image k
    rw [List.getElem?_eq_getElem hk', eq_comm, Option.bind_eq_some_iff] at hWord
    obtain ⟨high, hHigh, hWord⟩ := hWord
    obtain ⟨low, hLow, hWord⟩ := Option.map_eq_some_iff.1 hWord
    rw [hPlace, ← hWord, highByte_joinBytes, lowByte_joinBytes]
    exact ⟨hHigh, hLow⟩

/-- In every program that is assembled, the word at the offset of an instruction is
decoded as that instruction, with the operands that were written. Only a `SYSCALL` whose
value ends in `E0` or `EE` is decoded as a `CLS` or a `RET`. -/
theorem decode?_of_ofSource {source : String} {o : ObjectFile}
    (h : ObjectFile.ofSource source = .ok o) :
    ∃ statements, parse source = .ok statements ∧
      ∀ c ∈ commandsOf statements, ∃ e os high low i,
        c.Form e os ∧ programStart ≤ c.offset.toNat ∧
        o.image[c.offset.toNat - programStart]? = some high ∧
        o.image[c.offset.toNat - programStart + 1]? = some low ∧
        Instruction.decode? (joinBytes high low) = some i ∧
        ((e.operation = .sys → ∀ v ∈ Operand.valueNumbers (labelAddress? statements) os,
            v % 256 ≠ 0xE0 ∧ v % 256 ≠ 0xEE) →
          i.entry = e ∧ List.Forall₂
            (fun operand n => operand.number? (labelAddress? statements) = some n)
            os i.operandNumbers) ∧
        (e.operation = .sys → ∀ v ∈ Operand.valueNumbers (labelAddress? statements) os,
          (v % 256 = 0xE0 → i.entry = .clearScreenEntry) ∧
            (v % 256 = 0xEE → i.entry = .returnEntry)) := by
  cases hParse : parse source with
  | error e => simp [ObjectFile.ofSource, hParse] at h
  | ok statements =>
      rw [ObjectFile.ofSource_of_parse hParse] at h
      refine ⟨statements, rfl, fun c hc => ?_⟩
      obtain ⟨w, ⟨e, os, hForm, hFit, hw⟩, hStart, hHigh, hLow⟩ :=
        bytes_of_ofStatements (readsAs_of_parse hParse) h hc
      have hMatch := matches_assembledWord hForm.mem hForm.kinds hFit hw
      obtain ⟨found, hFound⟩ : ∃ found, Entry.find? w = some found := by
        apply Option.isSome_iff_exists.1
        rw [Entry.find?, List.find?_isSome]
        exact ⟨e, hForm.mem, by simpa using hMatch⟩
      have hDecode : Instruction.decode? w = some ⟨found, w⟩ :=
        Instruction.decode?_eq_some_iff.2 ⟨hFound, rfl⟩
      refine ⟨e, os, highByte w, lowByte w, ⟨found, w⟩, hForm, hStart, hHigh, hLow, ?_, ?_, ?_⟩
      · rw [joinBytes_highByte_lowByte]
        exact hDecode
      · intro hValue
        obtain ⟨hWritten, hNumbers⟩ :=
          decode?_assembledWord hForm.mem hForm.kinds hFit hw hValue
        obtain rfl : found = e := congrArg Instruction.entry
          (Option.some.inj (hDecode.symm.trans hWritten))
        exact ⟨rfl, hNumbers⟩
      · intro hSys v hv
        obtain ⟨hCls, hRet⟩ :=
          decode?_assembledWord_sys hForm.mem hForm.kinds hFit hw hSys hv
        constructor
        · intro hE0
          exact congrArg Instruction.entry (Option.some.inj (hDecode.symm.trans (hCls hE0)))
        · intro hEE
          exact congrArg Instruction.entry (Option.some.inj (hDecode.symm.trans (hRet hEE)))

/-- A program with a label, whose instructions are all decoded. -/
theorem decode?_of_ofSource_loop : ∃ o, ObjectFile.ofSource "a: seq reg[3], 0x2A\njmp a" = .ok o ∧
    ∃ statements, parse "a: seq reg[3], 0x2A\njmp a" = .ok statements ∧
      ∀ c ∈ commandsOf statements, ∃ high low,
        o.image[c.offset.toNat - programStart]? = some high ∧
        o.image[c.offset.toNat - programStart + 1]? = some low ∧
        (Instruction.decode? (joinBytes high low)).isSome := by
  have hImage : (ObjectFile.ofSource "a: seq reg[3], 0x2A\njmp a").toOption.isSome := by
    decide +kernel
  cases hAssembled : ObjectFile.ofSource "a: seq reg[3], 0x2A\njmp a" with
  | error e => simp [hAssembled, Except.toOption] at hImage
  | ok o =>
      obtain ⟨statements, hParse, hAll⟩ := decode?_of_ofSource hAssembled
      refine ⟨o, rfl, statements, hParse, fun c hc => ?_⟩
      obtain ⟨e, os, high, low, i, -, -, hHigh, hLow, hDecode, -⟩ := hAll c hc
      exact ⟨high, low, hHigh, hLow, by rw [hDecode]; rfl⟩

/-- A `SYSCALL` to the address `0x0E0` is not decoded as a `SYSCALL`. -/
theorem syscall_decoded_as_cls : ¬ ∀ (source : String) (o : ObjectFile),
    ObjectFile.ofSource source = .ok o →
      ∃ statements, parse source = .ok statements ∧
        ∀ c ∈ commandsOf statements, ∃ high low i,
          o.image[c.offset.toNat - programStart]? = some high ∧
          o.image[c.offset.toNat - programStart + 1]? = some low ∧
          Instruction.decode? (joinBytes high low) = some i ∧
          some i.entry.mnemonic = c.mnemonic.mnemonic? := by
  intro hClaim
  have hImage : (ObjectFile.ofSource "syscall 0x0E0").toOption.map (·.image) =
      some [0x00, 0xE0] := by decide +kernel
  have hWritten : (parse "syscall 0x0E0").toOption.map
      (fun statements => (commandsOf statements).map fun c => (c.mnemonic.mnemonic?, c.offset)) =
        some [(some .syscall, 0x200)] := by decide +kernel
  have hDecoded : (Instruction.decode? 0x00E0).map (·.entry.mnemonic) = some .cls := by
    decide +kernel
  cases hAssembled : ObjectFile.ofSource "syscall 0x0E0" with
  | error e => simp [hAssembled, Except.toOption] at hImage
  | ok o =>
      obtain ⟨statements, hParse, hAll⟩ := hClaim _ o hAssembled
      rw [hAssembled] at hImage
      rw [hParse] at hWritten
      obtain ⟨c, hc⟩ : ∃ c, commandsOf statements = [c] ∧
          c.mnemonic.mnemonic? = some .syscall ∧ c.offset = 0x200 := by
        simpa [Except.toOption, List.map_eq_cons_iff, Prod.ext_iff] using hWritten
      obtain ⟨hSingle, hMnemonic, hOffset⟩ := hc
      obtain ⟨high, low, i, hHigh, hLow, hDecode, hSame⟩ := hAll c (by simp [hSingle])
      have hBytes : o.image = [0x00, 0xE0] := by simpa [Except.toOption] using hImage
      rw [hOffset, hBytes] at hHigh hLow
      obtain rfl : (0x00 : UInt8) = high := Option.some.inj hHigh
      obtain rfl : (0xE0 : UInt8) = low := Option.some.inj hLow
      have hWord : joinBytes 0x00 0xE0 = 0x00E0 := by decide
      rw [hWord] at hDecode
      rw [hDecode] at hDecoded
      have hCls : some i.entry.mnemonic = some .cls := hDecoded
      rw [hMnemonic, hCls] at hSame
      exact absurd hSame (by decide)

end Asm

end Chip8

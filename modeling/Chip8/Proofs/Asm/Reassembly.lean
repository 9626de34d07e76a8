import Chip8.Listing
import Chip8.Proofs.Asm.Assembling
import Chip8.Proofs.Asm.Fields
import Chip8.Proofs.Asm.Printing
import Chip8.Proofs.Isa.Canonical

/-!
# Assembling a listing

A listing of an image, reduced to its instructions, is assembly text again. No word of
it is taken for a label, the reader finds the instructions with their entries and
operands, and every operand fits in the field that it was read from. So the text is
assembled, instruction by instruction, and the image comes back except for bits that the
decoder does not look at and that no operand shows.

## Main definitions

* `ShownWith` — what is known of the operands that an instruction is shown with.

## Main results

* `exists_parse` — the text of instructions is read as these instructions.
* `ofSource_listing` — what becomes of an image that is listed and assembled.
-/

namespace Chip8

namespace Asm

/-! ## Shown operands -/

/-- What an instruction is shown with is a row of operands for its entry, and they
denote what stands in the fields of the instruction, whatever labels there are. -/
structure ShownWith (i : Instruction) (os : List Operand) : Prop where
  kinds : i.entry.format.operands = os.map (·.shape.kind)
  special : i.entry.special = Operand.special? os
  numbers : ∀ labels, List.Forall₂ (fun o n => o.number? labels = some n) os i.operandNumbers
  fits : ∀ labels, ∀ o ∈ os, o.Fits labels i.entry.format

private theorem shownWith_shownOperands {i : Instruction} (hi : i.entry ∈ opcodeTable) :
    ShownWith i (shownOperands i) := by
  have hx := number?_ofHex (n := i.x.val) (by omega) 1
  have hy := number?_ofHex (n := i.y.val) (by omega) 1
  have hnnn := number?_ofHex i.nnn.toNat_lt 3
  have hnn : (Literal.ofDecimal i.nn.toNat).token.number? = some i.nn.toNat :=
    number?_ofDecimal (Nat.lt_trans i.nn.toNat_lt (by decide))
  have hNlt : i.n < 16 := Nat.mod_lt _ (by decide)
  have hn : (Literal.ofDecimal i.n).token.number? = some i.n := number?_ofDecimal (by omega)
  have hNnnlt : i.nnn.toNat < 4096 := by
    rw [Instruction.nnn, UInt16.toNat_ofNat']
    omega
  have hSpecial : .special ∈ i.entry.format.operands → ∃ s, i.entry.special = some s :=
    exists_special hi
  have hNone : .special ∉ i.entry.format.operands → i.entry.special = none := by
    intro hPlace
    rw [← Entry.special_mem_operands_iff _ hi] at hPlace
    simpa using hPlace
  cases hFormat : i.entry.format with
  | registerSpecial =>
      obtain ⟨s, hs⟩ := hSpecial (by rw [hFormat]; decide)
      constructor <;>
        simp [shownOperands, hFormat, hs, Format.operands, Operand.shape, Operand.special?,
          Instruction.operandNumbers, Operand.number?, Operand.Fits, Operand.bits, fieldSize, hx]
  | specialRegister =>
      obtain ⟨s, hs⟩ := hSpecial (by rw [hFormat]; decide)
      constructor <;>
        simp [shownOperands, hFormat, hs, Format.operands, Operand.shape, Operand.special?,
          Instruction.operandNumbers, Operand.number?, Operand.Fits, Operand.bits, fieldSize, hx]
  | specialValue =>
      obtain ⟨s, hs⟩ := hSpecial (by rw [hFormat]; decide)
      constructor <;>
        simp [shownOperands, hFormat, hs, Format.operands, Operand.shape, Operand.special?,
          Instruction.operandNumbers, Operand.number?, Operand.Fits, Operand.bits, fieldSize,
          Format.valueBits, hnnn, hNnnlt]
  | _ =>
      have hs := hNone (by rw [hFormat]; decide)
      constructor <;>
        simp [shownOperands, hFormat, hs, Format.operands, Operand.shape, Operand.special?,
          Instruction.operandNumbers, Operand.number?, Operand.Fits, Operand.bits, fieldSize,
          Format.valueBits, hx, hy, hn, hnn, hnnn, hNlt, hNnnlt, i.nn.toNat_lt]

/-- A word with the form of a shown instruction is its canonical word. -/
theorem eq_canonical_of_assembles {i : Instruction} {os : List Operand} (hShown : ShownWith i os)
    {labels : String → Option Nat} {c : Command} (hForm : c.Form i.entry os) {w : UInt16}
    (hw : c.Assembles labels w) : w = i.entry.canonical i.word := by
  obtain ⟨e, os', hForm', hFit, hValue⟩ := hw
  obtain ⟨rfl, rfl⟩ := hForm.unique hForm'
  obtain ⟨hNumbers, hLead, hTail⟩ := fields_of_assembledWord hForm.mem hForm.kinds hFit hValue
  refine Entry.eq_canonical hLead hTail ?_
  have hUnique : Relator.RightUnique fun (o : Operand) n => o.number? labels = some n :=
    fun _ _ _ h h' => Option.some.inj (h.symm.trans h')
  exact List.right_unique_forall₂' hUnique hNumbers (hShown.numbers labels)

/-! ## Reading shown instructions -/

/-- What is known of the tokens of operands: none is an unknown word or illegal. -/
theorem plain_of_mem_row {t : Token} {os : List Operand} (h : t ∈ Operand.row os) :
    t.unknown? = none ∧ t.illegal? = none := by
  have hLiteral : ∀ l : Literal, l.token.unknown? = none ∧ l.token.illegal? = none := by
    intro l
    cases l <;> exact ⟨rfl, rfl⟩
  rcases Operand.eq_comma_or_exists_of_mem_row h with rfl | ⟨o, -, ho⟩
  · exact ⟨rfl, rfl⟩
  · cases o with
    | register l =>
        simp only [Operand.tokens, List.mem_cons, List.not_mem_nil, or_false] at ho
        rcases ho with rfl | rfl | rfl | rfl <;> first | exact ⟨rfl, rfl⟩ | exact hLiteral l
    | special s =>
        obtain rfl := List.mem_singleton.1 ho
        exact ⟨rfl, rfl⟩
    | number l =>
        obtain rfl := List.mem_singleton.1 ho
        exact hLiteral l
    | label name =>
        obtain rfl := List.mem_singleton.1 ho
        exact ⟨rfl, rfl⟩

/-- Tokens without unknown words and illegal characters are resolved to themselves. -/
theorem resolve_of_plain {source : String}
    (hPlain : ∀ t ∈ (scan source).tokens, t.token.unknown? = none ∧ t.token.illegal? = none) :
    resolve source = .ok (scan source) := by
  have hDefinition : markDefinitions (scan source).tokens = (scan source).tokens := by
    apply List.ext_getElem (length_markDefinitions _)
    intro k _ hk
    simp only [markDefinitions, List.getElem_zipWith,
      markDefinition_of_known (hPlain _ (List.getElem_mem hk)).1]
  have hReference : markReferences (scan source).tokens = (scan source).tokens := by
    rw [markReferences]
    conv_rhs => rw [← List.map_id (scan source).tokens]
    refine List.map_congr_left fun t ht => ?_
    exact markReference_of_known (hPlain t ht).1 _
  rw [resolve_of_legal fun t ht => (hPlain t ht).2, hDefinition, hReference]

/-- The tokens of shown instructions are read as these instructions. -/
theorem exists_readStatements {stop : Nat} {offset : UInt16} {is : List Instruction}
    (his : ∀ i ∈ is, i.entry ∈ opcodeTable) {ts : List Located}
    (hts : ts.map (·.token) = is.flatMap shownTokens) :
    ∃ cs : List Command, readStatements stop offset ts = .ok (cs.map Statement.command) ∧
      List.Forall₂ (fun c i => c.Form i.entry (shownOperands i)) cs is := by
  induction is generalizing offset ts with
  | nil =>
      obtain rfl : ts = [] := by simpa using hts
      exact ⟨[], by rw [readStatements]; rfl, List.Forall₂.nil⟩
  | cons i is ih =>
      rw [List.forall_mem_cons] at his
      rw [List.flatMap_cons] at hts
      obtain ⟨first, rest, rfl, hFirst, hRest⟩ := List.map_eq_append_iff.1 hts
      obtain ⟨lead, operands, rfl, hLead, hOperands⟩ := List.map_eq_cons_iff.1 hFirst
      have hShown := shownWith_shownOperands his.1
      have hForm : Command.Form ⟨.keyword (.mnemonic i.entry.mnemonic), i.entry.format,
          lead :: operands, offset⟩ i.entry (shownOperands i) :=
        { mem := his.1
          mnemonic := rfl
          format := rfl
          kinds := hShown.kinds
          special := hShown.special
          tokens := hFirst }
      have hRead : readCommand stop offset (.keyword (.mnemonic i.entry.mnemonic)) lead
          (operands ++ rest) = .ok (⟨.keyword (.mnemonic i.entry.mnemonic), i.entry.format,
            lead :: operands, offset⟩, rest) :=
        (readCommand_eq_ok_iff hLead).2 ⟨rfl, rfl, rfl, _, _, hForm⟩
      obtain ⟨cs, hcs, hForms⟩ : ∃ cs : List Command,
          readStatements stop (offset + 2) rest = .ok (cs.map Statement.command) ∧
            List.Forall₂ (fun c i => c.Form i.entry (shownOperands i)) cs is := ih his.2 hRest
      refine ⟨_ :: cs, ?_, List.Forall₂.cons hForm hForms⟩
      rw [List.cons_append, readStatements_of_readCommand hLead hRead, hcs]
      rfl

/-- The text of instructions on lines of their own is read as these instructions. -/
theorem exists_parse {is : List Instruction} (his : ∀ i ∈ is, i.entry ∈ opcodeTable) :
    ∃ cs : List Command,
      parse ("\n".intercalate (is.map Instruction.text)) = .ok (cs.map Statement.command) ∧
        List.Forall₂ (fun c i => c.Form i.entry (shownOperands i)) cs is := by
  have hTokens : (scan ("\n".intercalate (is.map Instruction.text))).tokens.map (·.token) =
      is.flatMap shownTokens := tokenRow_lines his
  have hPlain : ∀ t ∈ (scan ("\n".intercalate (is.map Instruction.text))).tokens,
      t.token.unknown? = none ∧ t.token.illegal? = none := by
    intro t ht
    have hMem := List.mem_map_of_mem (f := fun t : Located => t.token) ht
    rw [hTokens] at hMem
    obtain ⟨i, -, hi⟩ := List.mem_flatMap.1 hMem
    rcases List.mem_cons.1 hi with hLead | hRow
    · rw [hLead]
      exact ⟨rfl, rfl⟩
    · exact plain_of_mem_row hRow
  obtain ⟨cs, hcs, hForms⟩ := exists_readStatements his hTokens
  refine ⟨cs, ?_, hForms⟩
  rw [parse, resolve_of_plain hPlain]
  exact hcs

private theorem commandsOf_map_command (cs : List Command) :
    commandsOf (cs.map Statement.command) = cs := by
  induction cs with
  | nil => rfl
  | cons c cs ih => rw [List.map_cons, commandsOf_command, ih]

/-- The text of instructions is assembled, if they fit in memory, and gives their
canonical words and no labels. -/
theorem ofSource_lines {is : List Instruction} (his : ∀ i ∈ is, i.entry ∈ opcodeTable)
    (hSize : 2 * is.length ≤ programCapacity) :
    ∃ o, ObjectFile.ofSource ("\n".intercalate (is.map Instruction.text)) = .ok o ∧
      o.symbols = some .empty ∧
        o.image = (is.map fun i => i.entry.canonical i.word).flatMap wordBytes := by
  obtain ⟨cs, hParse, hForms⟩ := exists_parse his
  have hReads := readsAs_of_parse hParse
  have hCommands := commandsOf_map_command cs
  have hLength := hForms.length_eq
  obtain ⟨o, ho⟩ : ∃ o, ObjectFile.ofStatements true (cs.map Statement.command) = .ok o := by
    rw [ObjectFile.exists_ofStatements_iff hReads, hCommands, hLength]
    refine ⟨hSize, fun c hc => ?_⟩
    obtain ⟨i, hForm⟩ := exists_forall₂_iff.1 ⟨is, hForms⟩ c hc
    exact ⟨i.entry, shownOperands i, hForm, (shownWith_shownOperands hForm.mem).fits _⟩
  obtain ⟨table, ws, hTable, hws, hImage, hSymbols⟩ :=
    (ObjectFile.ofStatements_eq_ok_iff hReads).1 ho
  refine ⟨o, ?_, ?_, ?_⟩
  · rw [ObjectFile.ofSource_of_parse hParse, ho]
  · have hEmpty : table = .empty := by
      apply SymbolTable.ext_address?
      intro name
      have hLabel := address?_of_ofStatements? hReads.laid hTable name
      have hNone : frontOfLast? name (cs.map Statement.command) = none := by
        rw [frontOfLast?_eq_none_iff]
        intro s hs
        obtain ⟨c, -, rfl⟩ := List.mem_map.1 hs
        exact not_false
      rw [labelAddress?, hNone] at hLabel
      simpa using hLabel
    rw [hSymbols, hEmpty]
    rfl
  · rw [hCommands] at hws
    have hWords := exists_forall₂_trans_iff.1 ⟨cs, List.Forall₂.flip hForms, hws⟩
    have hCanonical : List.Forall₂ (fun i w => i.entry.canonical i.word = w) is ws := by
      refine hWords.imp fun i w h => ?_
      obtain ⟨c, hForm, hw⟩ := h
      exact (eq_canonical_of_assembles (shownWith_shownOperands hForm.mem) hForm hw).symm
    rw [← List.forall₂_map_left_iff (f := fun i : Instruction => i.entry.canonical i.word),
      List.forall₂_eq_eq_eq] at hCanonical
    rw [← hImage, hCanonical]

/-! ## Images -/

/-- Rows of words are laid out as the bytes that they were read from. -/
theorem flatMap_wordBytes_wordsOf {bytes : List UInt8} (hEven : bytes.length % 2 = 0) :
    (wordsOf bytes).flatMap wordBytes = bytes := by
  fun_induction wordsOf bytes with
  | case1 high low rest ih =>
      have hRest : rest.length % 2 = 0 := by
        simp only [List.length_cons] at hEven
        omega
      rw [List.flatMap_cons, ih hRest, wordBytes, highByte_joinBytes, lowByte_joinBytes]
      rfl
  | case2 bytes hShort =>
      rcases bytes with _ | ⟨high, _ | ⟨low, rest⟩⟩
      · rfl
      · simp at hEven
      · exact absurd rfl (hShort high low rest)

/-- The addresses of a listing do not matter for its instructions. -/
theorem filterMap_lines {α : Type} (f : UInt16 → Option α) (address : UInt16) (ws : List UInt16) :
    (Listing.lines address ws).filterMap (fun l => f l.word) = ws.filterMap f := by
  conv_rhs => rw [← Listing.map_word_lines address ws, List.filterMap_map]
  rfl

/-- Words that are all decoded are the words of instructions. -/
theorem exists_instructions {ws : List UInt16} (h : ∀ w ∈ ws, (Instruction.decode? w).isSome) :
    ∃ is : List Instruction, ws.filterMap Instruction.decode? = is ∧
      is.map (·.word) = ws ∧ ∀ i ∈ is, Entry.find? i.word = some i.entry := by
  induction ws with
  | nil => exact ⟨[], rfl, rfl, by simp⟩
  | cons w ws ih =>
      rw [List.forall_mem_cons] at h
      obtain ⟨i, hi⟩ := Option.isSome_iff_exists.1 h.1
      obtain ⟨is, his, hWords, hFound⟩ := ih h.2
      obtain ⟨hEntry, rfl⟩ := Instruction.decode?_eq_some_iff.1 hi
      refine ⟨i :: is, ?_, ?_, List.forall_mem_cons.2 ⟨hEntry, hFound⟩⟩
      · rw [List.filterMap_cons_some hi, his]
      · rw [List.map_cons, hWords]

/-- An image of decoded words is listed, and its listing, reduced to the instructions on
lines of their own, is assembled again. There are no labels, and every word comes back
with the bits of its entry wherever it has no operands; so the image comes back exactly
if its words agree with their entries there. -/
theorem ofSource_listing {image : List UInt8} (hEven : image.length % 2 = 0)
    (hSize : image.length ≤ 3584)
    (hDecodes : ∀ w ∈ wordsOf image, (Instruction.decode? w).isSome) :
    ∃ lines o, Listing.listImage? image = some lines ∧
      ObjectFile.ofSource ("\n".intercalate
        (lines.filterMap fun l => l.instruction?.map Instruction.text)) = .ok o ∧
      o.symbols = some .empty ∧
      o.image.length = image.length ∧
      (∀ (k : Nat) (w : UInt16) (e : Entry), (wordsOf image)[k]? = some w →
        Entry.find? w = some e →
          (wordsOf o.image)[k]? = some (e.base ||| (w &&& ~~~e.format.mask))) ∧
      (o.image = image ↔ ∀ w ∈ wordsOf image, ∀ e, Entry.find? w = some e →
        w &&& e.format.mask = e.base) := by
  obtain ⟨is, his, hWords, hFound⟩ := exists_instructions hDecodes
  have hEntries : ∀ i ∈ is, i.entry ∈ opcodeTable := fun i hi =>
    (Entry.find?_eq_some_iff.1 (hFound i hi)).1
  have hLength : 2 * is.length = image.length := by
    rw [← List.length_map (f := fun i : Instruction => i.word), hWords, length_wordsOf]
    omega
  have hCapacity : programCapacity = 3584 := rfl
  obtain ⟨o, ho, hSymbols, hImage⟩ := ofSource_lines hEntries (by omega)
  have hListed : Listing.listImage? image =
      some (Listing.lines (UInt16.ofNat programStart) (wordsOf image)) :=
    Listing.listImage?_of_length_le (by omega)
  have hTexts : (Listing.lines (UInt16.ofNat programStart) (wordsOf image)).filterMap
      (fun l => l.instruction?.map Instruction.text) = is.map Instruction.text := by
    rw [← his, List.map_filterMap]
    exact filterMap_lines (fun w => (Instruction.decode? w).map Instruction.text) _ _
  have hBack : wordsOf o.image = is.map fun i => i.entry.canonical i.word := by
    rw [hImage, wordsOf_flatMap_wordBytes]
  refine ⟨_, o, hListed, ?_, hSymbols, ?_, ?_, ?_⟩
  · rw [hTexts, ho]
  · rw [hImage, length_flatMap_wordBytes, List.length_map, hLength]
  · intro k w e hw he
    rw [← hWords, List.getElem?_map, Option.map_eq_some_iff] at hw
    obtain ⟨i, hi, rfl⟩ := hw
    obtain rfl := Option.some.inj ((hFound i (List.mem_of_getElem? hi)).symm.trans he)
    rw [hBack, List.getElem?_map, hi]
    rfl
  · have hSame : o.image = image ↔ ∀ i ∈ is, i.entry.canonical i.word = i.word := by
      rw [← List.map_inj_left (g := fun i : Instruction => i.word), hWords, ← hBack]
      constructor
      · rintro rfl
        rfl
      · intro h
        rw [hImage, ← flatMap_wordBytes_wordsOf hEven, ← h, hBack]
    rw [hSame, ← hWords, List.forall_mem_map]
    refine forall₂_congr fun i hi => ?_
    rw [Entry.canonical_eq_self_iff (hEntries i hi), hFound i hi]
    simp

/-- A program that clears the screen, shifts a register, sets the address pointer and
begins again. The shift has a digit that the decoder ignores. -/
def shiftingForEver : List UInt8 := [0x00, 0xE0, 0x81, 0x36, 0xA2, 0x04, 0x12, 0x00]

/-- All lines come back, but not that digit. -/
theorem ofSource_listing_shift : ∃ lines o, Listing.listImage? shiftingForEver = some lines ∧
    ObjectFile.ofSource ("\n".intercalate
      (lines.filterMap fun l => l.instruction?.map Instruction.text)) = .ok o ∧
    o.image.length = 8 ∧ o.image ≠ shiftingForEver := by
  have hWords : wordsOf shiftingForEver = [0x00E0, 0x8136, 0xA204, 0x1200] := rfl
  have hDecodes : ∀ w ∈ wordsOf shiftingForEver, (Instruction.decode? w).isSome := by
    simp only [hWords, List.forall_mem_cons]
    exact ⟨by decide, by decide, by decide, by decide, List.forall_mem_nil _⟩
  have hEven : shiftingForEver.length % 2 = 0 := rfl
  have hSize : shiftingForEver.length ≤ 3584 := by decide
  rcases ofSource_listing hEven hSize hDecodes with
    ⟨lines, o, hLines, hObject, -, hLength, -, hSame⟩
  refine ⟨lines, o, hLines, hObject, hLength, fun hImage => ?_⟩
  have hMem : 0x8136 ∈ wordsOf shiftingForEver := by simp [hWords]
  have hBase := hSame.1 hImage 0x8136 hMem ⟨.shiftRight, .shr, .register, none, 0x8006⟩
    (by decide)
  exact absurd hBase (by decide)

end Asm

end Chip8

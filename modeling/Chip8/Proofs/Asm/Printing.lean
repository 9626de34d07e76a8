import Chip8.Isa.Instruction
import Chip8.Proofs.Asm.Operand
import Chip8.Proofs.Asm.Literal
import Chip8.Proofs.Asm.Scanning

/-!
# The tokens of a shown instruction

An instruction is shown as assembly text, and the tokens of that text are those of its
mnemonic and of a row of operands with the numbers that stand in its fields. This holds
wherever the text of an instruction ends a line: the last word or number of the
instruction does not run into the next line.

## Main definitions

* `Instruction.operands` — the operands that an instruction is shown with.

## Main results

* `tokenRow_text` — the tokens of one instruction.
* `tokenRow_lines` — the tokens of instructions on lines of their own.
-/

namespace Chip8

namespace Text

/-- A digit of base ten is one of the characters `0` to `9`. -/
theorem isDigit_of_digit? {c : Char} (h : (digit? 10 c).isSome) : c.isDigit := by
  rw [Char.isDigit_iff_toNat]
  by_contra hOther
  simp only [digit?, Char.reduceToNat] at h hOther
  split_ifs at h with h₁ h₂ h₃ <;> first | omega | simp at h

/-- A digit of base sixteen continues a number. -/
theorem isNumeric_of_digit? {c : Char} (h : (digit? 16 c).isSome) : Asm.isNumeric c := by
  have hLe : ∀ a b : Char, a.toNat ≤ b.toNat → a ≤ b := fun a b hab => UInt32.le_iff_toNat_le.2 hab
  by_cases hDigit : '0'.toNat ≤ c.toNat ∧ c.toNat ≤ '9'.toNat
  · simp [Asm.isNumeric, Char.isDigit_iff_toNat.2 hDigit]
  · have hLetter : 97 ≤ c.toNat ∧ c.toNat ≤ 102 ∨ 65 ≤ c.toNat ∧ c.toNat ≤ 70 := by
      simp only [digit?, Char.reduceToNat] at h hDigit
      split_ifs at h with h₁ h₂ h₃ <;> first | omega | simp at h
    rcases hLetter with ⟨hLow, hHigh⟩ | ⟨hLow, hHigh⟩
    · simp [Asm.isNumeric, hLe 'a' c hLow, hLe c 'f' hHigh]
    · simp [Asm.isNumeric, hLe 'A' c hLow, hLe c 'F' hHigh]

end Text

namespace Asm

/-! ## Numbers -/

/-- A number in base sixteen as it is read. -/
def Literal.ofHex (width n : Nat) : Literal := .hex (Text.foldCase ("0x" ++ Text.hex width n))

/-- A number in base ten as it is read. -/
def Literal.ofDecimal (n : Nat) : Literal := .decimal (Text.foldCase (Text.decimal n))

theorem number?_ofHex {n : Nat} (hn : n < 65536) (width : Nat) :
    (Literal.ofHex width n).token.number? = some n := by
  have hDigits : ((Text.foldCase ("0x" ++ Text.hex width n)).toList) =
      ['0', 'x'] ++ (Text.hex width n).toList.map Char.toLower := by
    rw [Text.toList_foldCase, String.toList_append, List.map_append]
    rfl
  rw [Literal.ofHex, Literal.token, Token.number?, Text.after?_eq_some_iff.2 hDigits,
    Option.bind_some, Text.numberOf?_map_toLower, Text.hex, String.toList_ofList]
  exact Text.numberOf?_numeral (by omega) (by omega) hn _

theorem number?_ofDecimal {n : Nat} (hn : n < 65536) :
    (Literal.ofDecimal n).token.number? = some n := by
  rw [Literal.ofDecimal, Literal.token, Token.number?, Text.toList_foldCase,
    Text.numberOf?_map_toLower, Text.decimal, String.toList_ofList]
  exact Text.numberOf?_numeral (by omega) (by omega) hn 0

private theorem tokenRow_hex {n : Nat} (hn : n < 65536) (width : Nat) {rest : List Char}
    (hRest : Ends rest) :
    tokenRow (("0x" ++ Text.hex width n).toList ++ rest) =
      (Literal.ofHex width n).token :: tokenRow rest := by
  have hNumber : Text.numberOf? 16 (Text.hex width n).toList = some n := by
    rw [Text.hex, String.toList_ofList]
    exact Text.numberOf?_numeral (by omega) (by omega) hn _
  have hNumeric : ∀ c ∈ 'x' :: (Text.hex width n).toList, isNumeric c := by
    rw [List.forall_mem_cons]
    exact ⟨by decide, fun c hc =>
      Text.isNumeric_of_digit? (Text.digit?_isSome_of_numberOf? hNumber c hc)⟩
  have hText : ("0x" ++ Text.hex width n).toList = '0' :: 'x' :: (Text.hex width n).toList := by
    rw [String.toList_append]
    rfl
  have hBack : String.ofList ('0' :: 'x' :: (Text.hex width n).toList) =
      "0x" ++ Text.hex width n := by
    rw [← hText, String.ofList_toList]
  rw [hText, tokenRow_number (by decide) hNumeric hRest, hBack]
  rfl

private theorem tokenRow_decimal {n : Nat} (hn : n < 65536) {rest : List Char} (hRest : Ends rest) :
    tokenRow ((Text.decimal n).toList ++ rest) =
      (Literal.ofDecimal n).token :: tokenRow rest := by
  have hNumber : Text.numberOf? 10 (Text.decimal n).toList = some n := by
    rw [Text.decimal, String.toList_ofList]
    exact Text.numberOf?_numeral (by omega) (by omega) hn 0
  have hDigit : ∀ c ∈ (Text.decimal n).toList, c.isDigit := fun c hc =>
    Text.isDigit_of_digit? (Text.digit?_isSome_of_numberOf? hNumber c hc)
  have hMark : (Text.decimal n).toList.any isRadixMark = false := by
    rw [List.any_eq_false]
    intro c hc
    simp [isRadixMark_of_isDigit (hDigit c hc)]
  obtain ⟨c, cs, hText⟩ : ∃ c cs, (Text.decimal n).toList = c :: cs := by
    apply List.exists_cons_of_ne_nil
    intro hNil
    simp [hNil, Text.numberOf?] at hNumber
  have hBack : String.ofList (c :: cs) = Text.decimal n := by
    rw [← hText, String.ofList_toList]
  rw [hText, List.forall_mem_cons] at hDigit
  have hNumeric : ∀ d ∈ cs, isNumeric d := by
    intro d hd
    simp [isNumeric, hDigit.2 d hd]
  rw [hText, tokenRow_number hDigit.1 hNumeric hRest, hBack, ← hText, hMark]
  rfl

/-! ## Keywords -/

/-- The string is a word, and one that stands for the keyword. -/
def SpellsKeyword (s : String) (k : Keyword) : Prop :=
  s.toList.head?.any isWordStart ∧ s.toList.tail.all isWordPart ∧ Ident.ofString s = .keyword k

instance (s : String) (k : Keyword) : Decidable (SpellsKeyword s k) :=
  inferInstanceAs (Decidable (_ ∧ _))

private theorem spellsKeyword_reg : SpellsKeyword "reg" .reg := by
  decide +kernel

private theorem spellsKeyword_mnemonic (m : Mnemonic) :
    SpellsKeyword (Keyword.mnemonic m).text (.mnemonic m) := by
  cases m <;> decide +kernel

private theorem spellsKeyword_special (s : Special) : SpellsKeyword s.text (.special s) := by
  cases s <;> decide +kernel

private theorem tokenRow_keyword {s : String} {k : Keyword} (hs : SpellsKeyword s k)
    {rest : List Char}
    (hRest : Ends rest) : tokenRow (s.toList ++ rest) = .ident (.keyword k) :: tokenRow rest := by
  obtain ⟨hStart, hParts, hIdent⟩ := hs
  cases hText : s.toList with
  | nil => simp [hText] at hStart
  | cons c cs =>
      rw [hText] at hStart hParts
      have hWord : ∀ d ∈ cs, isWordPart d := List.all_eq_true.1 hParts
      rw [tokenRow_word hStart hWord hRest, ← hText, String.ofList_toList, hIdent]

/-! ## Operands -/

/-- The string has the tokens of the operand, if no word or number runs on behind it. -/
def Shows (s : String) (o : Operand) : Prop :=
  ∀ rest, Ends rest → tokenRow (s.toList ++ rest) = o.tokens ++ tokenRow rest

private theorem shows_register (r : Register) : Shows r.text (.register (.ofHex 1 r.val)) := by
  intro rest _
  have hText : r.text.toList ++ rest =
      "reg".toList ++ '[' :: (("0x" ++ Text.hex 1 r.val).toList ++ ']' :: rest) := by
    rw [Register.text]
    simp
  rw [hText, tokenRow_keyword spellsKeyword_reg (ends_cons.2 (by decide)),
    tokenRow_punctuation rfl, tokenRow_hex (by omega) 1 (ends_cons.2 (by decide)),
    tokenRow_punctuation rfl]
  rfl

private theorem shows_hex {n : Nat} (hn : n < 65536) (width : Nat) :
    Shows ("0x" ++ Text.hex width n) (.number (.ofHex width n)) :=
  fun _ hRest => tokenRow_hex hn width hRest

private theorem shows_decimal {n : Nat} (hn : n < 65536) :
    Shows (Text.decimal n) (.number (.ofDecimal n)) :=
  fun _ hRest => tokenRow_decimal hn hRest

private theorem shows_special (s : Special) : Shows s.text (.special s) :=
  fun _ hRest => tokenRow_keyword (spellsKeyword_special s) hRest

/-- Operands as they are shown, with the space in front of the first. -/
def shownRow : List String → List Char
  | [] => []
  | s :: ss => ' ' :: s.toList ++ ss.flatMap fun t => ',' :: ' ' :: t.toList

private theorem ends_shownTail (ss : List String) {rest : List Char} (hRest : Ends rest) :
    Ends ((ss.flatMap fun t => ',' :: ' ' :: t.toList) ++ rest) := by
  cases ss with
  | nil => exact hRest
  | cons s ss => exact ends_cons.2 (by decide)

private theorem tokenRow_shownTail {ss : List String} {os : List Operand}
    (hShows : List.Forall₂ Shows ss os) {rest : List Char} (hRest : Ends rest) :
    tokenRow ((ss.flatMap fun t => ',' :: ' ' :: t.toList) ++ rest) =
      Operand.tail os ++ tokenRow rest := by
  induction hShows with
  | nil => rfl
  | @cons s o ss os hs _ ih =>
      rw [List.flatMap_cons, List.append_assoc, List.cons_append, List.cons_append,
        tokenRow_punctuation rfl, tokenRow_separator (by decide), hs _ (ends_shownTail ss hRest),
        ih, Operand.tail_cons, List.cons_append, List.append_assoc]

/-- The tokens of operands with commas between them. -/
theorem tokenRow_shownRow {ss : List String} {os : List Operand}
    (hShows : List.Forall₂ Shows ss os) {rest : List Char} (hRest : Ends rest) :
    tokenRow (shownRow ss ++ rest) = Operand.row os ++ tokenRow rest := by
  cases hShows with
  | nil => rfl
  | @cons s o ss os hs hTail =>
      rw [shownRow, List.cons_append, List.cons_append, tokenRow_separator (by decide),
        List.append_assoc, hs _ (ends_shownTail ss hRest), tokenRow_shownTail hTail hRest,
        Operand.row, List.append_assoc]

/-! ## Instructions -/

/-- The operands that an instruction is shown with. -/
def shownOperands (i : Instruction) : List Operand :=
  let x := Operand.register (.ofHex 1 i.x.val)
  let y := Operand.register (.ofHex 1 i.y.val)
  let address := Operand.number (.ofHex 3 i.nnn.toNat)
  let special := i.entry.special.toList.map Operand.special
  match i.entry.format with
  | .plain => []
  | .value => [address]
  | .register => [x]
  | .registerValue => [x, .number (.ofDecimal i.nn.toNat)]
  | .registerRegister => [x, y]
  | .registerRegisterValue => [x, y, .number (.ofDecimal i.n)]
  | .registerSpecial => x :: special
  | .specialRegister => special ++ [x]
  | .specialValue => special ++ [address]

/-- An entry has a special register if its format has a place for one. -/
theorem exists_special {e : Entry} (he : e ∈ opcodeTable)
    (hPlace : .special ∈ e.format.operands) : ∃ s, e.special = some s :=
  Option.isSome_iff_exists.1 ((Entry.special_mem_operands_iff e he).2 hPlace)

/-- An instruction is shown with its operands, format by format. -/
theorem exists_shownRow {i : Instruction} (hi : i.entry ∈ opcodeTable) :
    ∃ ss, i.operandText.toList = shownRow ss ∧ List.Forall₂ Shows ss (shownOperands i) := by
  have hx := shows_register i.x
  have hy := shows_register i.y
  have hNlt : i.n < 16 := Nat.mod_lt _ (by decide)
  have hn : Shows (Text.decimal i.n) (.number (.ofDecimal i.n)) := shows_decimal (by omega)
  have hnn : Shows (Text.decimal i.nn.toNat) (.number (.ofDecimal i.nn.toNat)) :=
    shows_decimal (Nat.lt_trans i.nn.toNat_lt (by decide))
  have hnnn : Shows ("0x" ++ Text.hex 3 i.nnn.toNat) (.number (.ofHex 3 i.nnn.toNat)) :=
    shows_hex i.nnn.toNat_lt 3
  have hSpecial : .special ∈ i.entry.format.operands → ∃ s, i.entry.special = some s :=
    exists_special hi
  cases hFormat : i.entry.format with
  | plain =>
      refine ⟨[], ?_, ?_⟩
      · simp [Instruction.operandText, hFormat, shownRow]
      · simp [shownOperands, hFormat]
  | value =>
      refine ⟨["0x" ++ Text.hex 3 i.nnn.toNat], ?_, ?_⟩
      · simp [Instruction.operandText, hFormat, shownRow]
      · simp [shownOperands, hFormat, hnnn]
  | register =>
      refine ⟨[i.x.text], ?_, ?_⟩
      · simp [Instruction.operandText, hFormat, shownRow]
      · simp [shownOperands, hFormat, hx]
  | registerValue =>
      refine ⟨[i.x.text, Text.decimal i.nn.toNat], ?_, ?_⟩
      · simp [Instruction.operandText, hFormat, shownRow]
      · simp [shownOperands, hFormat, hx, hnn]
  | registerRegister =>
      refine ⟨[i.x.text, i.y.text], ?_, ?_⟩
      · simp [Instruction.operandText, hFormat, shownRow]
      · simp [shownOperands, hFormat, hx, hy]
  | registerRegisterValue =>
      refine ⟨[i.x.text, i.y.text, Text.decimal i.n], ?_, ?_⟩
      · simp [Instruction.operandText, hFormat, shownRow]
      · simp [shownOperands, hFormat, hx, hy, hn]
  | registerSpecial =>
      obtain ⟨s, hs⟩ := hSpecial (by rw [hFormat]; decide)
      refine ⟨[i.x.text, s.text], ?_, ?_⟩
      · simp [Instruction.operandText, hFormat, shownRow, hs]
      · simp [shownOperands, hFormat, hx, hs, shows_special s]
  | specialRegister =>
      obtain ⟨s, hs⟩ := hSpecial (by rw [hFormat]; decide)
      refine ⟨[s.text, i.x.text], ?_, ?_⟩
      · simp [Instruction.operandText, hFormat, shownRow, hs]
      · simp [shownOperands, hFormat, hx, hs, shows_special s]
  | specialValue =>
      obtain ⟨s, hs⟩ := hSpecial (by rw [hFormat]; decide)
      refine ⟨[s.text, "0x" ++ Text.hex 3 i.nnn.toNat], ?_, ?_⟩
      · simp [Instruction.operandText, hFormat, shownRow, hs]
      · simp [shownOperands, hFormat, hnnn, hs, shows_special s]

/-- The tokens that an instruction is shown with. -/
def shownTokens (i : Instruction) : List Token :=
  .ident (.keyword (.mnemonic i.entry.mnemonic)) :: Operand.row (shownOperands i)

/-- The tokens of the text of an instruction. -/
theorem tokenRow_text {i : Instruction} (hi : i.entry ∈ opcodeTable) {rest : List Char}
    (hRest : Ends rest) : tokenRow (i.text.toList ++ rest) = shownTokens i ++ tokenRow rest := by
  obtain ⟨ss, hText, hShows⟩ := exists_shownRow hi
  have hEnds : Ends (shownRow ss ++ rest) := by
    cases ss with
    | nil => exact hRest
    | cons s ss => exact ends_cons.2 (by decide)
  rw [Instruction.text, String.toList_append, List.append_assoc, hText,
    tokenRow_keyword (spellsKeyword_mnemonic _) hEnds, tokenRow_shownRow hShows hRest]
  rfl

/-- The tokens of instructions that are shown on lines of their own. -/
theorem tokenRow_lines {is : List Instruction} (his : ∀ i ∈ is, i.entry ∈ opcodeTable) :
    tokenRow ("\n".intercalate (is.map Instruction.text)).toList = is.flatMap shownTokens := by
  induction is with
  | nil => simp
  | cons i is ih =>
      rw [List.forall_mem_cons] at his
      -- A line break stands between two instructions only, so the last one is its own case.
      cases is with
      | nil =>
          have hLast := tokenRow_text his.1 ends_nil
          simpa using hLast
      | cons j is =>
          rw [List.map_cons, List.map_cons, String.intercalate_cons_cons, String.toList_append,
            String.toList_append, List.append_assoc]
          show tokenRow (i.text.toList ++ '\n' :: _) = _
          rw [tokenRow_text his.1 (ends_cons.2 (by decide)), tokenRow_separator (by decide),
            List.flatMap_cons]
          exact congrArg _ (ih his.2)

end Asm

end Chip8

import Chip8.Asm.ObjectFile.Textual
import Chip8.Proofs.Asm.Assembling
import Chip8.Proofs.Asm.Items
import Chip8.Proofs.Asm.Places
import Chip8.Proofs.Asm.Table
import Chip8.Proofs.Text.Lines

/-!
# Labels that a line can hold

A line of the text form holds a label if it neither breaks the line nor begins a
comment, and has no white space at its ends. Not every table has such labels only: the
binary form brings in labels with line feeds. But a table that was assembled has words
as its labels, and a table that was read from a text has labels that stood on lines
already.

## Main definitions

* `Writable` — a line can hold the label.
* `SymbolTable.Writable` — lines can hold all labels of the table.

## Main results

* `writable_map_toLower` — folding keeps a label writable.
* `SymbolTable.writable_of_ofSource` — labels of a source text are writable.
* `SymbolTable.writable_of_ofTextual?` — labels that were read from a text are writable.
-/

namespace Chip8.Asm

/-- A line of the text form can hold the label. -/
structure Writable (label : List Char) : Prop where
  trimmed : Text.trim label = label
  oneLine : '\n' ∉ label
  noComment : ¬ ['/', '/'] <:+: label

/-- Folding makes neither line feeds nor comments. -/
theorem writable_map_toLower {label : List Char} (h : Writable label) :
    Writable (label.map Char.toLower) where
  trimmed := by rw [Text.trim_map_toLower, h.trimmed]
  oneLine := by
    intro hMem
    obtain ⟨c, hc, hEq⟩ := List.mem_map.1 hMem
    rw [Text.eq_of_toLower_eq (by decide) hEq] at hc
    exact h.oneLine hc
  noComment := by
    intro hPart
    obtain ⟨slashes, hSlashes, hMap⟩ := List.infix_map_iff.1 hPart
    have hSame : slashes = ['/', '/'] := by
      rcases slashes with _ | ⟨a, _ | ⟨b, _ | ⟨c, slashes⟩⟩⟩
      · simp at hMap
      · simp at hMap
      · simp only [List.map_cons, List.map_nil, List.cons.injEq, and_true] at hMap
        rw [Text.eq_of_toLower_eq (by decide) hMap.1.symm,
          Text.eq_of_toLower_eq (by decide) hMap.2.symm]
      · simp at hMap
    exact h.noComment (hSame ▸ hSlashes)

/-! ## Words -/

/-- The characters of words are letters, digits and underscores. -/
theorem toNat_of_isWordPart {c : Char} (h : isWordPart c) : 48 ≤ c.toNat ∧ c.toNat ≤ 122 := by
  rcases Bool.or_eq_true _ _ ▸ h with hAlnum | hUnderscore
  · rcases Bool.or_eq_true _ _ ▸ hAlnum with hAlpha | hDigit
    · rcases Bool.or_eq_true _ _ ▸ hAlpha with hUpper | hLower
      · have hRange : c.val ≥ 'A'.val ∧ c.val ≤ 'Z'.val := of_decide_eq_true hUpper
        have hLow : 65 ≤ c.toNat := UInt32.le_iff_toNat_le.1 hRange.1
        have hHigh : c.toNat ≤ 90 := UInt32.le_iff_toNat_le.1 hRange.2
        omega
      · have hRange := Bool.and_eq_true _ _ ▸ show
          (decide (c.val ≥ 'a'.val) && decide (c.val ≤ 'z'.val)) = true from hLower
        have hLow : 97 ≤ c.toNat := UInt32.le_iff_toNat_le.1 (of_decide_eq_true hRange.1)
        have hHigh : c.toNat ≤ 122 := UInt32.le_iff_toNat_le.1 (of_decide_eq_true hRange.2)
        omega
    · obtain ⟨hLow, hHigh⟩ := Char.isDigit_iff_toNat.1 hDigit
      simp only [Char.reduceToNat] at hLow hHigh
      omega
  · obtain rfl : c = '_' := by simpa using hUnderscore
    decide

/-- A word is writable. -/
theorem writable_of_isWordPart {word : List Char} (h : ∀ c ∈ word, isWordPart c) :
    Writable word where
  trimmed := by
    refine Text.trim_eq_self_of_forall fun c hc => ?_
    obtain ⟨hLow, hHigh⟩ := toNat_of_isWordPart (h c hc)
    exact Text.isBlank_of_visible (by omega) (by omega)
  oneLine := fun hMem => absurd (h _ hMem) (by decide)
  noComment := fun hPart => absurd (h '/' (hPart.mem (by simp))) (by decide)

/-! ## Labels of a source text -/

/-- An unknown identifier of a text is a word in folded form. -/
theorem exists_word_of_unknown? {c : Char} {rest : List Char} {name : String}
    (h : (Token.ofLexeme (lexeme (c :: rest))).unknown? = some name) :
    ∃ word : List Char, (∀ d ∈ word, isWordPart d) ∧ name = Text.foldCase (String.ofList word) := by
  by_cases hDigit : c.isDigit
  · simp only [lexeme, hDigit, if_true, Token.ofLexeme] at h
    split at h <;> cases h
  · by_cases hStart : isWordStart c
    · refine ⟨c :: rest.takeWhile isWordPart, ?_, ?_⟩
      · intro d hd
        rcases List.mem_cons.1 hd with rfl | hd
        · rw [isWordPart, Char.isAlphanum, Bool.or_eq_true, Bool.or_eq_true]
          rcases Bool.or_eq_true _ _ ▸ hStart with hAlpha | hUnderscore
          · exact .inl (.inl hAlpha)
          · exact .inr hUnderscore
        · exact List.all_eq_true.1 List.all_takeWhile d hd
      · simp only [lexeme, hDigit, hStart, Bool.false_eq_true, if_false, if_true,
          Token.ofLexeme, Ident.ofString] at h
        split at h
        · cases h
        · exact (Option.some.inj h).symm
    · obtain ⟨ds, hLead⟩ : ∃ ds, lexeme (c :: rest) = c :: ds := by
        simp only [lexeme, hDigit, hStart, Bool.false_eq_true, if_false]
        split <;> exact ⟨_, rfl⟩
      rw [hLead] at h
      simp only [Token.ofLexeme, hDigit, hStart, Bool.false_eq_true, if_false] at h
      repeat' split at h
      all_goals cases h

/-- A definition in a resolved text was an unknown identifier. -/
theorem exists_unknown_of_resolve {source : String} {stream : TokenStream}
    (h : resolve source = .ok stream) {t : Located} (ht : t ∈ stream.tokens) {name : String}
    (hName : t.token = .labelDef name) :
    ∃ u ∈ (scan source).tokens, u.token.unknown? = some name := by
  obtain ⟨u, hu, -, hFrom⟩ := exists_read_of_resolve h ht
  rw [hName] at hFrom
  exact ⟨u, hu, Token.unknown?_eq_some_iff.2 (hFrom.eq_unknown (plain_of_mem_scan hu).1)⟩

/-- A label of a source text is a word in folded form. -/
theorem writable_of_parse {source : String} {statements : List Statement}
    (hParse : parse source = .ok statements) {l : Label} {offset : UInt16}
    (hl : Statement.label l offset ∈ statements) : Writable l.name.toList := by
  obtain ⟨stream, hResolve, -⟩ := exists_of_bind_eq_ok hParse
  obtain ⟨items, hTokens, rfl⟩ := (parse_eq_ok_iff hResolve).1 hParse
  obtain ⟨k, t, -, ht, -, hName, -⟩ := exists_getElem?_of_label_mem hl
  rw [hTokens] at ht
  obtain ⟨u, hu, hUnknown⟩ := exists_unknown_of_resolve hResolve (List.mem_of_getElem? ht) hName
  obtain ⟨c, rest, hToken⟩ := exists_lexeme_of_mem_scanFrom hu
  rw [hToken] at hUnknown
  obtain ⟨word, hWord, hFolded⟩ := exists_word_of_unknown? hUnknown
  rw [hFolded, Text.toList_foldCase, String.toList_ofList]
  exact writable_map_toLower (writable_of_isWordPart hWord)

/-! ## Tables -/

namespace SymbolTable

/-- Lines of the text form can hold all labels of the table. -/
def Writable (t : SymbolTable) : Prop := ∀ r ∈ t.records, Asm.Writable r.name.toList

private theorem writable_empty : empty.Writable := by
  intro r hr
  simp at hr

private theorem writable_insert {t : SymbolTable} (ht : t.Writable) {label : String}
    (hLabel : Asm.Writable label.toList) (address : UInt16) :
    (t.insert label address).Writable := by
  intro r hr
  rcases mem_records_insert hr with rfl | hThere
  · show Asm.Writable (Text.foldCase label).toList
    rw [Text.toList_foldCase]
    exact writable_map_toLower hLabel
  · exact ht r hThere

/-- Statements with writable labels make a writable table. -/
theorem writable_of_foldlM_enter {statements : List Statement} {t t' : SymbolTable}
    (ht : t.Writable)
    (hLabels : ∀ l offset, Statement.label l offset ∈ statements → Asm.Writable l.name.toList)
    (h : statements.foldlM enter t = .ok t') : t'.Writable := by
  induction statements generalizing t with
  | nil =>
      obtain rfl := Except.ok.inj h
      exact ht
  | cons s statements ih =>
      rw [List.foldlM_cons] at h
      obtain ⟨next, hNext, h⟩ := exists_of_bind_eq_ok h
      refine ih ?_ (fun l offset hl => hLabels l offset (List.mem_cons_of_mem s hl)) h
      cases s with
      | label l offset =>
          obtain rfl := Except.ok.inj hNext
          exact writable_insert ht (hLabels l offset (by simp)) offset
      | command c =>
          rw [enter] at hNext
          split at hNext
          · obtain rfl := Except.ok.inj hNext
            exact ht
          · cases hNext

/-- The labels of an assembled source text are writable. -/
theorem writable_of_ofSource {source : String} {o : ObjectFile}
    (h : ObjectFile.ofSource source = .ok o) {t : SymbolTable} (ht : o.symbols = some t) :
    t.Writable := by
  cases hParse : parse source with
  | error e =>
      rw [ObjectFile.ofSource, hParse] at h
      cases h
  | ok statements =>
      rw [ObjectFile.ofSource_of_parse hParse, ObjectFile.ofStatements] at h
      obtain ⟨table, hTable, h⟩ := exists_of_bind_eq_ok h
      obtain ⟨_, -, -, hSymbols⟩ := ObjectFile.ofResolved_eq_ok_iff.1 h
      obtain rfl : table = t := Option.some.inj (hSymbols.symm.trans ht)
      exact writable_of_foldlM_enter writable_empty
        (fun l offset hl => writable_of_parse hParse hl) hTable

end SymbolTable

/-! ## Labels that were read from a text -/

/-- A line without its comment has none, and it stays one line. -/
theorem writable_strip {line : List Char} (h : '\n' ∉ line) : Writable (strip line) := by
  have hPart : ∀ cs : List Char, cs <:+: line → ¬ ['/', '/'] <:+: cs → Writable (Text.trim cs) :=
    fun cs hcs hSlashes =>
      { trimmed := Text.trim_trim cs
        oneLine := fun hMem => h (hcs.mem ((Text.trim_infix cs).mem hMem))
        noComment := fun hComment => hSlashes (hComment.trans (Text.trim_infix cs)) }
  rw [strip]
  cases hCut : Text.cut? ['/', '/'] line with
  | none => exact hPart line List.infix_rfl (Text.cut?_eq_none_iff.1 hCut)
  | some p =>
      have hWhole := Text.append_of_cut? hCut
      refine hPart p.1 ⟨[], ['/', '/'] ++ p.2, ?_⟩ (Text.not_infix_of_cut? (by simp) hCut)
      rw [hWhole]
      simp

private theorem writable_of_mem_meaningfulLines {text line : List Char}
    (h : line ∈ meaningfulLines text) : Writable line := by
  obtain ⟨hMem, -⟩ := List.mem_filter.1 h
  obtain ⟨raw, hRaw, rfl⟩ := List.mem_map.1 hMem
  exact writable_strip (Text.newline_notMem_of_mem_lines hRaw)

namespace SymbolTable

/-- A line of a table brings in a label that stood on the line. -/
theorem writable_of_readSymbolLine? {t t' : SymbolTable} {line : List Char} (ht : t.Writable)
    (hLine : Asm.Writable line) (h : readSymbolLine? t line = some t') : t'.Writable := by
  simp only [readSymbolLine?, Option.bind_eq_bind, Option.bind_eq_some_iff] at h
  obtain ⟨⟨front, label⟩, hCut, h⟩ := h
  split at h
  · obtain rfl := Option.some.inj h
    exact ht
  · obtain ⟨address, -, h⟩ := Option.bind_eq_some_iff.1 h
    obtain rfl := Option.some.inj h
    have hPart : Text.trim label <:+: line := by
      refine (Text.trim_infix label).trans ⟨front ++ ['|'], [], ?_⟩
      rw [Text.append_of_cut? hCut, List.append_nil]
    refine writable_insert ht ?_ address
    rw [String.toList_ofList]
    exact
      { trimmed := Text.trim_trim label
        oneLine := fun hMem => hLine.oneLine (hPart.mem hMem)
        noComment := fun hComment => hLine.noComment (hComment.trans hPart) }

/-- Reading lines keeps the labels writable. -/
theorem writable_of_readLines? {place : Option Section} {count : Nat}
    {t t' : Option SymbolTable} {ls : List (List Char)} {bytes : List UInt8}
    (ht : ∀ s, t = some s → s.Writable) (hls : ∀ line ∈ ls, Asm.Writable line)
    (h : readLines? place count t ls = some (bytes, t')) : ∀ s, t' = some s → s.Writable := by
  have hGetD : ∀ t : Option SymbolTable, (∀ s, t = some s → s.Writable) →
      (t.getD empty).Writable := by
    intro t ht
    cases t with
    | none => exact writable_empty
    | some s => exact ht s rfl
  fun_induction readLines? place count t ls generalizing bytes with
  | case1 place count t =>
      obtain ⟨-, rfl⟩ := Prod.mk.inj (Option.some.inj h)
      exact ht
  | case2 place count t line ls hDot next opened =>
      rename_i ih
      refine ih ?_ (fun l hl => hls l (List.mem_cons_of_mem line hl)) h
      intro s hs
      simp only [opened] at hs
      split at hs
      · obtain rfl := Option.some.inj hs
        exact hGetD t ht
      · exact ht s hs
  | case3 count t line ls hDot ih =>
      simp only [Option.bind_eq_bind, Option.bind_eq_some_iff] at h
      obtain ⟨_, -, ⟨_, _⟩, hRead, h⟩ := h
      obtain ⟨-, rfl⟩ := Prod.mk.inj (Option.some.inj h)
      exact ih _ ht (fun l hl => hls l (List.mem_cons_of_mem line hl)) hRead
  | case4 count t line ls hDot ih =>
      obtain ⟨next, hNext, h⟩ := Option.bind_eq_some_iff.1 h
      refine ih next ?_ (fun l hl => hls l (List.mem_cons_of_mem line hl)) h
      intro s hs
      obtain rfl := Option.some.inj hs
      exact writable_of_readSymbolLine? (hGetD t ht) (hls line (by simp)) hNext
  | case5 => cases h

/-- The labels of an object file that was read from a text are writable. -/
theorem writable_of_ofTextual? {text : String} {o : ObjectFile}
    (h : ObjectFile.ofTextual? text = some o) {t : SymbolTable} (ht : o.symbols = some t) :
    t.Writable := by
  rw [ObjectFile.ofTextual?] at h
  split at h
  · cases h
  · rename_i first ls hlines
    split at h
    · simp only [Option.bind_eq_bind, Option.bind_eq_some_iff] at h
      obtain ⟨⟨image, symbols⟩, hRead, o', -, h⟩ := h
      obtain rfl := Option.some.inj h
      refine writable_of_readLines? (by simp) (fun line hLine => ?_) hRead t ht
      have hMem : line ∈ meaningfulLines text.toList := by
        rw [hlines]
        exact List.mem_cons_of_mem first hLine
      exact writable_of_mem_meaningfulLines hMem
    · cases h

end SymbolTable

end Chip8.Asm

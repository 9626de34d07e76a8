import Chip8.Proofs.Asm.Assembling
import Chip8.Proofs.Asm.Items

/-!
# The faults of a source text

The later stages of the assembler check what the earlier ones have established. The
encoder looks for an entry by the special register that it finds among all the tokens of
an instruction, and for numbers at the places that the format gives; the second pass
looks labels up in the symbol table; the size of the program is checked twice.
Statements that were made by other means than by reading a text can fail each of these
checks.

The statements of a text cannot. The reader chose the entry by the first special
register among the operands, and that is the first among the tokens; the operands stand
where the format says; and a word became a reference only because its name is defined,
so that a statement defines it and the first pass has entered it. What remains are texts
that cannot be read, numbers that are misspelt or too large, and programs that are too
long.

## Main definitions

* `Command.WellFormed`, `Command.Encodable` — what is known of an instruction of a text,
  and of the same instruction with its labels resolved.
* `AssemblyFault.IsNumeric` — a number is misspelt or too large.

## Main results

* `Command.WellFormed.encodable` — resolving makes well-formed instructions encodable.
* `Command.Encodable.exists_readValue` — of an encodable instruction, only a number can
  be at fault.
* `exists_of_foldlM_enter`, `exists_encode_of_ofResolved` — which instruction is at
  fault.
* `fault_cases_of_ofSource` — what is at fault, stage by stage.
* `faults_of_ofSource` — the faults of a text, and when its program is too large.
-/

namespace Chip8

/-- Fields belong to the kinds and places from which they were made. -/
theorem Format.map_fieldsFrom (low shift : Nat) (positions : List (OperandKind × Nat)) :
    (fieldsFrom low shift positions).map (fun f => (f.kind, f.position)) = positions := by
  induction positions generalizing shift with
  | nil => rfl
  | cons p positions ih =>
      rcases p with ⟨kind, position⟩
      cases kind with
      | register => exact congrArg _ (ih (shift - 4))
      | value | special => exact congrArg _ (ih shift)

theorem Format.map_fields (f : Format) :
    f.fields.map (fun fld => (fld.kind, fld.position)) = f.operandPositions :=
  map_fieldsFrom _ 8 f.operandPositions

namespace Asm

/-! ## Instructions of a text -/

/-- The encoder finds an entry, with the special register that it finds among the
tokens, and a number at each place where the format has an operand that is no special
register. -/
structure Command.Encodable (c : Command) : Prop where
  entry : ∃ e, Entry.lookup? c.mnemonic c.format c.special? = some e
  operands : ∀ kind position, (kind, position) ∈ c.format.operandPositions →
    ∃ t, c.tokens[position]? = some t ∧ (kind ≠ .special → ∃ l : Literal, t.token = l.token)

/-- The same of an instruction that still has labels, all of which are defined by
statements. -/
structure Command.WellFormed (statements : List Statement) (c : Command) : Prop where
  entry : ∃ e, Entry.lookup? c.mnemonic c.format c.special? = some e
  operands : ∀ kind position, (kind, position) ∈ c.format.operandPositions →
    ∃ t, c.tokens[position]? = some t ∧
      (kind ≠ .special → (∃ l : Literal, t.token = l.token) ∨ ∃ name, t.token = .labelRef name)
  labels : ∀ t ∈ c.tokens, ∀ name, t.token = .labelRef name → ∃ s ∈ statements, s.Defines name

variable {c c' : Command} {statements : List Statement} {table : SymbolTable}

/-- An entry that was chosen by the operands is found by the tokens. -/
theorem Command.Form.lookup? {e : Entry} {os : List Operand} (hForm : c.Form e os) :
    Entry.lookup? c.mnemonic c.format c.special? = some e := by
  have hSpecial : e.special = c.special? := hForm.special.trans hForm.special?_eq.symm
  exact Entry.lookup?_eq_some_iff.2 ⟨hForm.mem, hForm.mnemonic, hForm.format, hSpecial⟩

/-- Operands stand where the format says. -/
theorem Command.Form.exists_operand {e : Entry} {os : List Operand} (hForm : c.Form e os)
    {kind : OperandKind} {position : Nat} (hMem : (kind, position) ∈ c.format.operandPositions) :
    ∃ o ∈ os, o.shape.kind = kind ∧ ∃ t, c.tokens[position]? = some t ∧ t.token = o.telling := by
  rw [← Format.map_fields, ← hForm.format] at hMem
  rcases List.mem_map.1 hMem with ⟨fld, hField, hPair⟩
  rcases List.getElem?_of_mem hField with ⟨k, hk⟩
  rcases List.getElem?_eq_some_iff.1 hk with ⟨hInside, rfl⟩
  have hAligned := aligned_of_form hForm
  have hInside' : k < os.length := hAligned.length_eq ▸ hInside
  rcases hAligned.get hInside hInside' with ⟨hKind, -, hTelling⟩
  rw [List.getElem?_map] at hTelling
  rcases Option.map_eq_some_iff.1 hTelling with ⟨t, hToken, hTells⟩
  rcases Prod.mk.inj hPair with ⟨rfl, rfl⟩
  exact ⟨os[k], List.getElem_mem hInside', hKind.symm, t, hToken, hTells⟩

/-- The token that tells an operand is a number or a label, unless it is a special
register. -/
theorem Operand.telling_cases {o : Operand} (hKind : o.shape.kind ≠ .special) :
    (∃ l : Literal, o.telling = l.token) ∨ ∃ name, o.telling = .labelRef name := by
  cases o with
  | register l => exact .inl ⟨l, rfl⟩
  | special s => exact absurd rfl hKind
  | number l => exact .inl ⟨l, rfl⟩
  | label name => exact .inr ⟨name, rfl⟩

/-- What a table has been filled with has the labels of the statements. -/
theorem exists_address_of_defines (hLaid : Laid (UInt16.ofNat programStart) statements)
    (hTable : SymbolTable.ofStatements? statements = .ok table) {s : Statement} {name : String}
    (hMem : s ∈ statements) (hDefines : s.Defines name) :
    ∃ address, table.address? name = some address := by
  have hAddress := address?_of_ofStatements? hLaid hTable name
  cases hFront : frontOfLast? name statements with
  | none => exact absurd hDefines (frontOfLast?_eq_none_iff.1 hFront s hMem)
  | some front =>
      rw [labelAddress?, hFront] at hAddress
      rcases Option.map_eq_some_iff.1 hAddress with ⟨address, hSome, -⟩
      exact ⟨address, hSome⟩

/-- With a table of all labels, a well-formed instruction is resolved, and the result is
encodable. -/
theorem Command.WellFormed.encodable (hWell : c.WellFormed statements)
    (hLabels : ∀ s ∈ statements, ∀ name, s.Defines name →
      ∃ address, table.address? name = some address) :
    ∃ c', table.resolve c = .ok c' ∧ c'.Encodable := by
  have hResolved : ∃ c', table.resolve c = .ok c' := by
    refine SymbolTable.exists_resolve_of_labels fun t hMem name hName => ?_
    rcases hWell.labels t hMem name hName with ⟨s, hStatement, hDefines⟩
    exact hLabels s hStatement name hDefines
  rcases hResolved with ⟨c', hResolve⟩
  have hSpecial := SymbolTable.special?_of_resolve hResolve
  have hSame : c'.mnemonic = c.mnemonic ∧ c'.format = c.format := by
    rcases SymbolTable.resolve_eq_ok_iff.1 hResolve with ⟨ts, -, rfl⟩
    exact ⟨rfl, rfl⟩
  refine ⟨c', hResolve, ?_, ?_⟩
  · rw [hSame.1, hSame.2, hSpecial]
    exact hWell.entry
  · intro kind position hMem
    rw [hSame.2] at hMem
    rcases hWell.operands kind position hMem with ⟨t, hToken, hTells⟩
    rcases SymbolTable.exists_getElem?_of_resolve hResolve hToken with ⟨t', hToken', hStep⟩
    refine ⟨t', hToken', fun hKind => ?_⟩
    rcases hTells hKind with ⟨l, hNumber⟩ | ⟨name, hName⟩
    · rw [SymbolTable.resolveToken_of_number hNumber] at hStep
      rw [← Except.ok.inj hStep]
      exact ⟨l, hNumber⟩
    · rcases (SymbolTable.resolveToken_of_labelRef hName).1 hStep with ⟨address, -, rfl⟩
      exact ⟨.decimal (Text.decimal address.toNat), rfl⟩

/-! ## Labels of a text -/

/-- The token of a definition belongs to no instruction. -/
theorem WrittenCommand.ne_labelDef_of_mem (w : WrittenCommand) {t : Located} (hMem : t ∈ w.tokens)
    (name : String) : t.token ≠ .labelDef name := by
  have hWritten := List.mem_map_of_mem (f := fun t : Located => t.token) hMem
  rw [w.written] at hWritten
  rcases List.mem_cons.1 hWritten with hLead | hRow
  · rw [hLead]
    simp
  · rcases Operand.eq_comma_or_exists_of_mem_row hRow with hComma | ⟨o, -, hOperand⟩
    · rw [hComma]
      simp
    · intro hName
      rw [hName] at hOperand
      cases o with
      | register l | number l => cases l <;> simp [Operand.tokens, Literal.token] at hOperand
      | special | label => simp [Operand.tokens] at hOperand

/-- A definition among the tokens of items is one among their statements. -/
theorem exists_statement_of_labelDef {address : UInt16} {items : List Item} {t : Located}
    {name : String} (hMem : t ∈ items.flatMap Item.tokens) (hName : t.token = .labelDef name) :
    ∃ s ∈ statementsFrom address items, s.Defines name := by
  induction items generalizing address with
  | nil => exact absurd hMem List.not_mem_nil
  | cons item items ih =>
      rw [List.flatMap_cons, List.mem_append] at hMem
      cases item with
      | comment u hComment =>
          rcases hMem with hHere | hLater
          · rw [List.mem_singleton.1 hHere, hComment] at hName
            exact absurd hName (by simp)
          · exact ih hLater
      | label other u colon hOther hColon =>
          rcases hMem with hHere | hLater
          · refine ⟨_, List.mem_cons_self, ?_⟩
            rcases List.mem_pair.1 hHere with rfl | rfl
            · obtain rfl : other = name := Token.labelDef.inj (hOther.symm.trans hName)
              rfl
            · exact absurd (hColon.symm.trans hName) (by simp)
          · rcases ih hLater with ⟨s, hLabel, hDefines⟩
            exact ⟨s, List.mem_cons_of_mem _ hLabel, hDefines⟩
      | command w =>
          rcases hMem with hHere | hLater
          · exact absurd hName (w.ne_labelDef_of_mem hHere name)
          · rcases ih hLater with ⟨s, hLabel, hDefines⟩
            exact ⟨s, List.mem_cons_of_mem _ hLabel, hDefines⟩

/-- The instructions of a text are well-formed. -/
theorem wellFormed_of_parse {source : String} (hParse : parse source = .ok statements)
    (hMem : c ∈ commandsOf statements) : c.WellFormed statements := by
  rcases (readsAs_of_parse hParse).form c hMem with ⟨e, os, hForm⟩
  refine ⟨⟨e, hForm.lookup?⟩, fun kind position hPosition => ?_, fun t hToken name hName => ?_⟩
  · rcases hForm.exists_operand hPosition with ⟨o, -, hKind, t, hToken, hTells⟩
    refine ⟨t, hToken, fun hNoSpecial => ?_⟩
    rw [hTells]
    exact Operand.telling_cases (hKind ▸ hNoSpecial)
  · rcases exists_of_bind_eq_ok hParse with ⟨stream, hResolve, -⟩
    rcases (parse_eq_ok_iff hResolve).1 hParse with ⟨items, hTokens, rfl⟩
    rcases exists_item_of_mem_commandsOf hMem with ⟨w, hItem, hPlaced⟩
    have hWritten : t ∈ w.tokens := by
      rw [hPlaced] at hToken
      exact hToken
    have hStream : t ∈ stream.tokens := by
      rw [← hTokens]
      exact List.mem_flatMap.2 ⟨_, hItem, hWritten⟩
    rcases exists_definition_of_resolve hResolve hStream hName with ⟨u, hDefined, hDefinition⟩
    rw [← hTokens] at hDefined
    exact exists_statement_of_labelDef hDefined hDefinition

/-! ## Faults of numbers -/

/-- A number is misspelt or too large. -/
def AssemblyFault.IsNumeric (fault : AssemblyFault) : Prop :=
  (∃ digits, fault = .invalidNumber digits) ∨ ∃ field, fault = .overflow field

variable {e : AssemblyError}

private theorem isNumeric_of_readNumber {bits : Nat} {t : Located} {l : Literal}
    (hToken : t.token = l.token) (hError : readNumber bits t = .error e) : e.fault.IsNumeric := by
  unfold readNumber at hError
  rw [hToken] at hError
  cases l with
  | decimal digits =>
      simp only [Literal.token] at hError
      split at hError
      · exact absurd hError (by simp)
      · exact Except.error.inj hError ▸ .inl ⟨digits, rfl⟩
      · exact Except.error.inj hError ▸ .inr ⟨⟨bits⟩, rfl⟩
  | hex digits =>
      simp only [Literal.token] at hError
      split at hError
      · split at hError
        · exact absurd hError (by simp)
        · exact Except.error.inj hError ▸ .inl ⟨digits, rfl⟩
        · exact Except.error.inj hError ▸ .inr ⟨⟨bits⟩, rfl⟩
      · exact Except.error.inj hError ▸ .inl ⟨digits, rfl⟩

private theorem isNumeric_of_readValue {bits : Nat} {t : Located} {l : Literal}
    (hToken : t.token = l.token) (hError : readValue bits t = .error e) : e.fault.IsNumeric := by
  unfold readValue at hError
  split at hError
  · rename_i other hOther
    rw [← Except.error.inj hError]
    exact isNumeric_of_readNumber hToken hOther
  · split at hError
    · exact absurd hError (by simp)
    · rename_i overflow _
      rw [← Except.error.inj hError]
      exact .inr ⟨overflow, rfl⟩

/-- Where an operand has its token, it is the number of this token that cannot be
encoded. -/
theorem readValue_of_encodeField {fld : OperandField} {t : Located}
    (hToken : c.tokens[fld.position]? = some t) (hError : c.encodeField fld = .error e) :
    fld.kind ≠ .special ∧ readValue fld.bits t = .error e := by
  unfold Command.encodeField at hError
  rw [hToken] at hError
  cases hKind : fld.kind with
  | special => simp [hKind] at hError
  | register | value =>
      simp only [hKind] at hError
      rcases bind_eq_error_iff.1 hError with hRead | ⟨f, -, hDone⟩
      · exact ⟨by simp, hRead⟩
      · exact absurd hDone (by simp [pure, Except.pure])

private theorem exists_readValue_of_encodeFields {flds : List OperandField}
    (hFields : ∀ fld ∈ flds, ∃ t, c.tokens[fld.position]? = some t)
    (hError : c.encodeFields flds = .error e) :
    ∃ fld ∈ flds, ∃ t, c.tokens[fld.position]? = some t ∧ fld.kind ≠ .special ∧
      readValue fld.bits t = .error e := by
  induction flds with
  | nil => exact absurd hError (by simp [Command.encodeFields])
  | cons fld flds ih =>
      rw [List.forall_mem_cons] at hFields
      rcases hFields.1 with ⟨t, hToken⟩
      rcases bind_eq_error_iff.1 hError with hFirst | ⟨first, -, hError⟩
      · exact ⟨fld, List.mem_cons_self, t, hToken, readValue_of_encodeField hToken hFirst⟩
      · rcases bind_eq_error_iff.1 hError with hOthers | ⟨others, -, hDone⟩
        · rcases ih hFields.2 hOthers with ⟨other, hMem, hFault⟩
          exact ⟨other, List.mem_cons_of_mem _ hMem, hFault⟩
        · exact absurd hDone (by simp [pure, Except.pure])

/-- An encodable instruction fails by the number of one of its operands, if it fails. -/
theorem Command.Encodable.exists_readValue (hEncodable : c.Encodable)
    (hError : c.encode = .error e) :
    ∃ fld ∈ c.format.fields, ∃ t, c.tokens[fld.position]? = some t ∧ fld.kind ≠ .special ∧
      (∃ l : Literal, t.token = l.token) ∧ readValue fld.bits t = .error e := by
  rcases hEncodable.entry with ⟨entry, hEntry⟩
  have hFields : ∀ fld ∈ c.format.fields, ∃ t, c.tokens[fld.position]? = some t ∧
      (fld.kind ≠ .special → ∃ l : Literal, t.token = l.token) := by
    intro fld hMem
    refine hEncodable.operands fld.kind fld.position ?_
    rw [← Format.map_fields]
    exact List.mem_map_of_mem hMem
  unfold Command.encode at hError
  rw [hEntry] at hError
  rcases bind_eq_error_iff.1 hError with hOperands | ⟨operands, -, hDone⟩
  · have hTokens : ∀ fld ∈ c.format.fields, ∃ t, c.tokens[fld.position]? = some t :=
      fun fld hMem => (hFields fld hMem).imp fun _ => And.left
    rcases exists_readValue_of_encodeFields hTokens hOperands with
      ⟨fld, hMem, t, hToken, hKind, hRead⟩
    rcases hFields fld hMem with ⟨t', hToken', hNumber⟩
    obtain rfl : t = t' := Option.some.inj (hToken.symm.trans hToken')
    exact ⟨fld, hMem, t, hToken, hKind, hNumber hKind, hRead⟩
  · exact absurd hDone (by simp [pure, Except.pure])

/-- Of instructions that fit into the program, one of them cannot be encoded by itself.
The size is not at fault, although it is checked again. -/
theorem exists_encode_of_encodeFrom {size : Nat} {cs : List Command}
    (hFits : size + 2 * cs.length ≤ programCapacity) (hError : encodeFrom size cs = .error e) :
    ∃ c ∈ cs, c.encode = .error e := by
  induction cs generalizing size with
  | nil => exact absurd hError (by simp [encodeFrom])
  | cons c cs ih =>
      rw [List.length_cons] at hFits
      have hRoom : ¬ programCapacity < size + 2 := by omega
      have hRest : size + 2 + 2 * cs.length ≤ programCapacity := by omega
      rw [encodeFrom, if_neg hRoom] at hError
      rcases bind_eq_error_iff.1 hError with hFirst | ⟨word, -, hError⟩
      · exact ⟨c, List.mem_cons_self, hFirst⟩
      · rcases bind_eq_error_iff.1 hError with hOthers | ⟨bytes, -, hDone⟩
        · rcases ih hRest hOthers with ⟨d, hMem, hFails⟩
          exact ⟨d, List.mem_cons_of_mem _ hMem, hFails⟩
        · exact absurd hDone (by simp [pure, Except.pure])

/-! ## Faults of a text -/

/-- The first pass fails at the first instruction that lies outside the memory for
programs. -/
theorem exists_of_foldlM_enter (hError : statements.foldlM SymbolTable.enter table = .error e) :
    ∃ front c back, commandsOf statements = front ++ c :: back ∧ (∀ d ∈ front, d.Inside) ∧
      ¬ c.Inside ∧ e = .single .programTooLarge c.span := by
  induction statements generalizing table with
  | nil => exact absurd hError (by simp [pure, Except.pure])
  | cons s statements ih =>
      rw [List.foldlM_cons] at hError
      rcases bind_eq_error_iff.1 hError with hHere | ⟨next, hEnter, hLater⟩
      · cases s with
        | label l offset => exact absurd hHere (by simp [SymbolTable.enter])
        | command c =>
            simp only [SymbolTable.enter] at hHere
            split at hHere
            · exact absurd hHere (by simp)
            · rename_i hOutside
              exact ⟨[], c, commandsOf statements, rfl, by simp, hOutside,
                (Except.error.inj hHere).symm⟩
      · rcases ih hLater with ⟨front, d, back, hRow, hFront, hOutside, hFault⟩
        cases s with
        | label l offset => exact ⟨front, d, back, hRow, hFront, hOutside, hFault⟩
        | command c =>
            have hInside : c.Inside := by
              simp only [SymbolTable.enter] at hEnter
              split at hEnter
              · assumption
              · exact absurd hEnter (by simp)
            exact ⟨c :: front, d, back, by rw [commandsOf_command, hRow, List.cons_append],
              List.forall_mem_cons.2 ⟨hInside, hFront⟩, hOutside, hFault⟩

private theorem fault_of_foldlM_enter
    (hError : statements.foldlM SymbolTable.enter table = .error e) :
    e.fault = .programTooLarge := by
  rcases exists_of_foldlM_enter hError with ⟨-, c, -, -, -, -, rfl⟩
  rfl

/-- The second pass over the statements of a text resolves all labels, and where the
result is not encoded, this is because of one of the instructions. -/
theorem exists_encode_of_ofResolved {source : String} {keepSymbols : Bool}
    (hParse : parse source = .ok statements)
    (hTable : SymbolTable.ofStatements? statements = .ok table)
    (hError : ObjectFile.ofResolved statements table keepSymbols = .error e) :
    ∃ c ∈ commandsOf statements, ∃ c', table.resolve c = .ok c' ∧ c'.Encodable ∧
      c'.encode = .error e := by
  have hLaid := (readsAs_of_parse hParse).laid
  have hLabels : ∀ s ∈ statements, ∀ name, s.Defines name →
      ∃ address, table.address? name = some address :=
    fun s hMem name => exists_address_of_defines hLaid hTable hMem
  have hEach : ∀ c ∈ commandsOf statements, ∃ c', table.resolve c = .ok c' ∧ c'.Encodable :=
    fun c hMem => (wellFormed_of_parse hParse hMem).encodable hLabels
  have hFits := (exists_ofStatements?_iff hLaid).1 ⟨table, hTable⟩
  unfold ObjectFile.ofResolved at hError
  split at hError
  · rename_i other hOther
    have hAll : ∃ commands, (commandsOf statements).mapM table.resolve = .ok commands :=
      exists_mapM_eq_ok_iff.2 fun c hMem => (hEach c hMem).imp fun _ hGiven => hGiven.1
    rcases hAll with ⟨commands, hCommands⟩
    exact absurd (hOther.symm.trans hCommands) (by simp)
  · rename_i commands hCommands
    have hRows := mapM_eq_ok_iff.1 hCommands
    split at hError
    · rename_i other hEncode
      obtain rfl := Except.error.inj hError
      have hRoom : 0 + 2 * commands.length ≤ programCapacity := by
        rw [← hRows.length_eq, Nat.zero_add]
        exact hFits
      rcases exists_encode_of_encodeFrom hRoom hEncode with ⟨c', hMem, hFails⟩
      rcases List.getElem_of_mem hMem with ⟨k, hInside, rfl⟩
      have hInside' : k < (commandsOf statements).length := hRows.length_eq ▸ hInside
      have hMem' := List.getElem_mem hInside'
      have hResolve := hRows.get hInside' hInside
      rcases hEach _ hMem' with ⟨c'', hResolve', hEncodable⟩
      obtain rfl : c'' = commands[k] := Except.ok.inj (hResolve'.symm.trans hResolve)
      exact ⟨_, hMem', _, hResolve', hEncodable, hFails⟩
    · exact absurd hError (by simp)

/-- What is at fault where a text is not assembled. It is not read, or the first pass
finds the program too large, or the second pass finds a fault of a number. -/
theorem fault_cases_of_ofSource {source : String} (hError : ObjectFile.ofSource source = .error e) :
    (∃ fault, e.fault = .unreadable fault) ∨
      (∃ statements, parse source = .ok statements ∧ 1792 < (commandsOf statements).length ∧
        e.fault = .programTooLarge) ∨ e.fault.IsNumeric := by
  have hCapacity : programCapacity = 2 * 1792 := rfl
  cases hParse : parse source with
  | error fault =>
      rw [ObjectFile.ofSource, hParse] at hError
      rw [← Except.error.inj hError]
      exact .inl ⟨fault.fault, rfl⟩
  | ok statements =>
      rw [ObjectFile.ofSource_of_parse hParse] at hError
      rcases bind_eq_error_iff.1 hError with hFirst | ⟨table, hTable, hSecond⟩
      · have hLarge : ¬ 2 * (commandsOf statements).length ≤ programCapacity := by
          rw [← exists_ofStatements?_iff (readsAs_of_parse hParse).laid]
          rintro ⟨table, hTable⟩
          exact absurd (hFirst.symm.trans hTable) (by simp)
        exact .inr (.inl ⟨statements, rfl, by omega, fault_of_foldlM_enter hFirst⟩)
      · rcases exists_encode_of_ofResolved hParse hTable hSecond with
          ⟨c, -, c', -, hEncodable, hFails⟩
        rcases hEncodable.exists_readValue hFails with ⟨fld, -, t, -, -, ⟨l, hLiteral⟩, hRead⟩
        exact .inr (.inr (isNumeric_of_readValue hLiteral hRead))

/-- A text with too many instructions is read, and then fails by its size. -/
theorem exists_programTooLarge {source : String} (hParse : parse source = .ok statements)
    (hLarge : 1792 < (commandsOf statements).length) :
    ∃ e, ObjectFile.ofSource source = .error e ∧ e.fault = .programTooLarge := by
  have hCapacity : programCapacity = 2 * 1792 := rfl
  cases hTable : SymbolTable.ofStatements? statements with
  | ok table =>
      have hFits := (exists_ofStatements?_iff (readsAs_of_parse hParse).laid).1 ⟨table, hTable⟩
      omega
  | error e =>
      refine ⟨e, ?_, fault_of_foldlM_enter hTable⟩
      rw [ObjectFile.ofSource_of_parse hParse, ObjectFile.ofStatements, hTable]
      rfl

/-- Of the faults of an assembly, a text has four: it cannot be read, one of its numbers
is misspelt or too large, or its program is too large. This last fault is that of the
texts that are read and have more than 1792 instructions. Every instruction of a text is
well-formed, and with the symbol table of its program it is resolved and becomes
encodable. -/
theorem faults_of_ofSource (source : String) :
    (∀ e, ObjectFile.ofSource source = .error e →
      (∃ fault, e.fault = .unreadable fault) ∨ (∃ digits, e.fault = .invalidNumber digits) ∨
        (∃ field, e.fault = .overflow field) ∨ e.fault = .programTooLarge) ∧
    ((∃ e, ObjectFile.ofSource source = .error e ∧ e.fault = .programTooLarge) ↔
      ∃ statements, parse source = .ok statements ∧ 1792 < (commandsOf statements).length) ∧
    ∀ statements, parse source = .ok statements → ∀ c ∈ commandsOf statements,
      c.WellFormed statements ∧ ∀ table, SymbolTable.ofStatements? statements = .ok table →
        ∃ c', table.resolve c = .ok c' ∧ c'.Encodable := by
  refine ⟨fun e hError => ?_, ⟨?_, ?_⟩, fun statements hParse c hMem => ?_⟩
  · rcases fault_cases_of_ofSource hError with hUnreadable | ⟨-, -, -, hLarge⟩ | hNumber | hField
    · exact .inl hUnreadable
    · exact .inr (.inr (.inr hLarge))
    · exact .inr (.inl hNumber)
    · exact .inr (.inr (.inl hField))
  · rintro ⟨e, hError, hFault⟩
    rcases fault_cases_of_ofSource hError with
      ⟨fault, hUnreadable⟩ | ⟨statements, hParse, hLarge, -⟩ | ⟨digits, hNumber⟩ |
        ⟨field, hField⟩
    · exact absurd (hFault.symm.trans hUnreadable) (by simp)
    · exact ⟨statements, hParse, hLarge⟩
    · exact absurd (hFault.symm.trans hNumber) (by simp)
    · exact absurd (hFault.symm.trans hField) (by simp)
  · rintro ⟨statements, hParse, hLarge⟩
    exact exists_programTooLarge hParse hLarge
  · have hWell := wellFormed_of_parse hParse hMem
    refine ⟨hWell, fun table hTable => hWell.encodable fun s hStatement name => ?_⟩
    exact exists_address_of_defines (readsAs_of_parse hParse).laid hTable hStatement

/-- A jump to a label, and a word of digits that is no number. -/
def misspeltNumber : String := "a: jmp a\nmov reg[0], 12a"

theorem faults_of_ofSource_misspelt :
    (∃ e, ObjectFile.ofSource misspeltNumber = .error e ∧
      ((∃ fault, e.fault = .unreadable fault) ∨ (∃ digits, e.fault = .invalidNumber digits) ∨
        (∃ field, e.fault = .overflow field) ∨ e.fault = .programTooLarge)) ∧
    ∃ statements table c c', parse misspeltNumber = .ok statements ∧
      c ∈ commandsOf statements ∧ SymbolTable.ofStatements? statements = .ok table ∧
      table.resolve c = .ok c' ∧ c'.Encodable := by
  rcases faults_of_ofSource misspeltNumber with ⟨hFaults, -, hCommands⟩
  have hFails : (ObjectFile.ofSource misspeltNumber).toOption = none := by decide +kernel
  have hRead : ((parse misspeltNumber).toOption.map fun statements =>
      (commandsOf statements).length) = some 2 := by decide +kernel
  constructor
  · cases hError : ObjectFile.ofSource misspeltNumber with
    | ok o => simp [hError, Except.toOption] at hFails
    | error e => exact ⟨e, rfl, hFaults e hError⟩
  · cases hParse : parse misspeltNumber with
    | error fault => simp [hParse, Except.toOption] at hRead
    | ok statements =>
        have hTwo : (commandsOf statements).length = 2 := by
          simpa [hParse, Except.toOption] using hRead
        have hFits : 2 * (commandsOf statements).length ≤ programCapacity := by
          rw [hTwo]
          decide
        rcases (exists_ofStatements?_iff (readsAs_of_parse hParse).laid).2 hFits with
          ⟨table, hTable⟩
        have hFirst := List.getElem_mem (l := commandsOf statements) (n := 0) (by omega)
        rcases (hCommands statements hParse _ hFirst).2 table hTable with
          ⟨c', hResolve, hEncodable⟩
        exact ⟨statements, table, _, c', rfl, hFirst, hTable, hResolve, hEncodable⟩

end Asm

end Chip8

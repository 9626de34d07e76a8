import Chip8.Proofs.Asm.Faults
import Chip8.Proofs.Asm.Places

/-!
# Where diagnostics point

A diagnostic of the assembler points at one place of the text, and this place is a piece
of the text that has to do with the fault. The stages of the assembler get to it in
different ways. The reader of tokens and the reader of statements point at the token at
which they get stuck, or behind all tokens; where the operands of an instruction are
what does not fit together, they point at the instruction as a whole. The first pass
points at the first instruction that is too many. The second pass points at a number,
and if this is the address of a label then it is written nowhere in the text: what the
encoder reads is a number in base ten, which may be longer or shorter than the label.
But the place of the label has been kept.

So it is enough to know of every stage at which tokens it points. That these tokens
stand where they are written, and that rows of them have places, is known of all tokens
of a text.

## Main definitions

* `Stuck`, `Refused` — at which tokens the reader of statements gives up.
* `IsOperand`, `DoesNotFit`, `Span.IsCommand` — what the places of the other faults have
  to do with the instructions.
* `AssemblyFault.Concerns`, `AssemblyError.PointsAt` — the place of a diagnostic is
  right.

## Main results

* `refused_of_readStatements` — why statements are not read.
* `exists_pointsAt_of_parse`, `exists_pointsAt_of_ofStatements` — the stages.
* `ofSource_points_at` — the diagnostics of any text, and the places of its labels.
-/

namespace Chip8.Asm

open Text (byteLength foldCase)

/-! ## Where the reader gives up -/

section Reading

variable {stop : Nat} {ts us : List Located} {t : Located} {e : ParseError}

/-- A token cannot stand where it does: one of the row, or the end of the text behind
it. -/
def Stuck (stop : Nat) (ts : List Located) (e : ParseError) : Prop :=
  ∃ t, (t ∈ ts ∨ t = ⟨.endOfInput, ⟨stop, stop⟩⟩) ∧ e = .unexpected t

private theorem stuck_end :
    Stuck stop ts (.unexpected ⟨.endOfInput, ⟨stop, stop⟩⟩) := ⟨_, .inr rfl, rfl⟩

private theorem stuck_head :
    Stuck stop (t :: ts) (.unexpected t) := ⟨t, .inl List.mem_cons_self, rfl⟩

/-- The tokens in front have been read. -/
theorem Stuck.append (us : List Located) (hStuck : Stuck stop ts e) : Stuck stop (us ++ ts) e := by
  rcases hStuck with ⟨t, hMem | hEnd, hError⟩
  · exact ⟨t, .inl (List.mem_append_right us hMem), hError⟩
  · exact ⟨t, .inr hEnd, hError⟩

private theorem stuck_of_expect {expected : Token} (hError : expect stop expected ts = .error e) :
    Stuck stop ts e := by
  cases ts with
  | nil => exact Except.error.inj hError ▸ stuck_end
  | cons t ts =>
      simp only [expect] at hError
      split at hError
      · exact absurd hError (by simp)
      · exact Except.error.inj hError ▸ stuck_head

private theorem stuck_of_expectNumber (hError : expectNumber stop ts = .error e) :
    Stuck stop ts e := by
  cases ts with
  | nil => exact Except.error.inj hError ▸ stuck_end
  | cons t ts =>
      simp only [expectNumber] at hError
      split at hError
      · exact absurd hError (by simp)
      · exact absurd hError (by simp)
      · exact Except.error.inj hError ▸ stuck_head

private theorem stuck_of_readOperand (hError : readOperand stop ts = .error e) :
    Stuck stop ts e := by
  cases ts with
  | nil => exact Except.error.inj hError ▸ stuck_end
  | cons t ts =>
      simp only [readOperand] at hError
      split at hError
      · rcases bind_eq_error_iff.1 hError with hOpening | ⟨⟨opening, ts₁⟩, hOpening, hInside⟩
        · exact (stuck_of_expect hOpening).append [t]
        rw [(cons_of_expect hOpening).1]
        rcases bind_eq_error_iff.1 hInside with hNumber | ⟨⟨number, ts₂⟩, hNumber, hBehind⟩
        · exact (stuck_of_expectNumber hNumber).append [t, opening]
        rw [show ts₁ = number :: ts₂ from cons_of_expectNumber hNumber]
        rcases bind_eq_error_iff.1 hBehind with hClosing | ⟨closing, -, hDone⟩
        · exact (stuck_of_expect hClosing).append [t, opening, number]
        · exact absurd hDone (by simp [pure, Except.pure])
      · exact absurd hError (by simp)
      · exact absurd hError (by simp)
      · exact absurd hError (by simp)
      · exact absurd hError (by simp)
      · exact Except.error.inj hError ▸ stuck_head

private theorem stuck_of_readMoreOperands {count : Nat}
    (hError : readMoreOperands stop count ts = .error e) : Stuck stop ts e := by
  induction count generalizing ts with
  | zero => exact absurd hError (by simp [readMoreOperands])
  | succ count ih =>
      rcases bind_eq_error_iff.1 hError with hComma | ⟨⟨comma, ts₁⟩, hComma, hBehind⟩
      · exact stuck_of_expect hComma
      rw [(cons_of_expect hComma).1]
      rcases bind_eq_error_iff.1 hBehind with hOperand | ⟨⟨shape, operand, ts₂⟩, hOperand, hOthers⟩
      · exact (stuck_of_readOperand hOperand).append [comma]
      rw [show ts₁ = operand ++ ts₂ from append_of_readOperand hOperand]
      rcases bind_eq_error_iff.1 hOthers with hMore | ⟨more, -, hDone⟩
      · exact (ih hMore).append (comma :: operand)
      · exact absurd hDone (by simp [pure, Except.pure])

private theorem stuck_of_readOperands {count : Nat}
    (hError : readOperands stop count ts = .error e) :
    Stuck stop ts e := by
  cases count with
  | zero => exact absurd hError (by simp [readOperands])
  | succ count =>
      rcases bind_eq_error_iff.1 hError with hOperand | ⟨⟨shape, operand, ts₁⟩, hOperand, hBehind⟩
      · exact stuck_of_readOperand hOperand
      rw [append_of_readOperand hOperand]
      rcases bind_eq_error_iff.1 hBehind with hMore | ⟨more, -, hDone⟩
      · exact (stuck_of_readMoreOperands hMore).append operand
      · exact absurd hDone (by simp [pure, Except.pure])

/-- Why tokens are not read as statements: one of them cannot stand where it does, or
some of them are a mnemonic with as many operands as it needs, and no form of it has
these operands. -/
inductive Refused (stop : Nat) (ts : List Located) : ParseError → Prop where
  | stuck {e : ParseError} (hStuck : Stuck stop ts e) : Refused stop ts e
  | operands {row : List Located} {mnemonic : Ident} {os : List Operand} (hRow : row <:+: ts)
      (hWritten : row.map (·.token) = .ident mnemonic :: Operand.row os)
      (hCount : Entry.arity? mnemonic = some os.length)
      (hForm : formOf? mnemonic (os.map Operand.shape) = none) :
      Refused stop ts ⟨.invalidOperands mnemonic, .single (.cover (row.map (·.span)))⟩

/-- The tokens in front have been read. -/
theorem Refused.append (us : List Located) (hRefused : Refused stop ts e) :
    Refused stop (us ++ ts) e := by
  cases hRefused with
  | stuck hStuck => exact .stuck (hStuck.append us)
  | operands hRow hWritten hCount hForm =>
      exact .operands (hRow.trans (List.suffix_append us ts).isInfix) hWritten hCount hForm

private theorem refused_of_readCommand {offset : UInt16} {m : Mnemonic} {lead : Located}
    (hLead : lead.token = .ident (.keyword (.mnemonic m)))
    (hError : readCommand stop offset (.keyword (.mnemonic m)) lead ts = .error e) :
    Refused stop (lead :: ts) e := by
  unfold readCommand at hError
  split at hError
  · -- A mnemonic without any form is reported like a token that cannot stand there.
    refine .stuck ⟨lead, .inl List.mem_cons_self, ?_⟩
    rw [← Except.error.inj hError, ParseError.unexpected, hLead]
    rfl
  · rename_i arity hArity
    rcases bind_eq_error_iff.1 hError with
      hOperands | ⟨⟨shapes, operands, rest⟩, hOperands, hChoice⟩
    · exact .stuck ((stuck_of_readOperands hOperands).append [lead])
    rcases readOperands_eq_ok_iff.1 hOperands with ⟨os, hCount, hTokens, hRow, hShapes⟩
    dsimp only at hChoice
    split at hChoice
    · exact absurd hChoice (by simp)
    · rename_i hForm
      rw [← Except.error.inj hChoice, hTokens]
      refine .operands ⟨[], rest, by simp⟩ ?_ (hCount ▸ hArity) (hShapes ▸ hForm)
      rw [List.map_cons, hLead, hRow]

/-- The colon of a label is in front of what follows it. -/
theorem skipColon_suffix (ts : List Located) : skipColon ts <:+ ts := by
  cases ts with
  | nil => exact List.suffix_rfl
  | cons t ts =>
      rw [skipColon]
      split
      · exact List.suffix_cons t ts
      · exact List.suffix_rfl

/-- Tokens that are not read as statements are refused at one of them, or at some. -/
theorem refused_of_readStatements {offset : UInt16}
    (hError : readStatements stop offset ts = .error e) : Refused stop ts e := by
  fun_induction readStatements stop offset ts with
  | case1 => exact absurd hError (by simp)
  | case2 offset t ts hComment ih => exact (ih hError).append [t]
  | case3 offset t ts name hName ih =>
      rcases bind_eq_error_iff.1 hError with hRest | ⟨rest, -, hDone⟩
      · rcases skipColon_suffix ts with ⟨colon, hColon⟩
        have hRefused := (ih hRest).append (t :: colon)
        rwa [List.cons_append, hColon] at hRefused
      · exact absurd hDone (by simp [pure, Except.pure])
  | case4 offset t ts m hMnemonic other hRead =>
      obtain rfl := Except.error.inj hError
      exact refused_of_readCommand hMnemonic hRead
  | case5 offset t ts m hMnemonic c ts' hRead ih =>
      rcases bind_eq_error_iff.1 hError with hRest | ⟨rest, -, hDone⟩
      · rw [append_of_readCommand hRead]
        exact (ih hRest).append c.tokens
      · exact absurd hDone (by simp [pure, Except.pure])
  | case6 => exact Except.error.inj hError ▸ .stuck stuck_head

end Reading

/-! ## Faults and their places -/

/-- The token tells an operand of one of the instructions, which has a field of `bits`
bits. -/
def IsOperand (statements : List Statement) (bits : Nat) (t : Located) : Prop :=
  ∃ c ∈ commandsOf statements, ∃ fld ∈ c.format.fields,
    fld.kind ≠ .special ∧ fld.bits = bits ∧ c.tokens[fld.position]? = some t

/-- A number that is too large for a field of `bits` bits, or a label with such an
address. -/
def DoesNotFit (statements : List Statement) (bits : Nat) (token : Token) : Prop :=
  token.TooLarge bits ∨ ∃ name n, token = .labelRef name ∧
    labelAddress? statements name = some n ∧ fieldSize bits ≤ n

/-- An instruction of the text: its place runs from the first byte of the mnemonic to
the last byte of the last operand, or of the mnemonic if there are no operands. -/
def Span.IsCommand (s : Span) (source : String) (mnemonic : Ident) (os : List Operand) : Prop :=
  ∃ stream row, resolve source = .ok stream ∧ row <:+: stream.tokens ∧
    row.map (·.token) = .ident mnemonic :: Operand.row os ∧
      (∀ t ∈ row, ∃ lead, t.StandsFor source lead) ∧ s.Runs row

/-- What the fault of a text has to do with the piece of the text that is at a place. -/
def AssemblyFault.Concerns (source : String) (s : Span) (piece : List Char) : AssemblyFault → Prop
  | .unreadable (.illegalToken symbol) =>
    foldCase (String.ofList piece) = symbol ∧ ⟨.illegal symbol, s⟩ ∈ (scan source).tokens
  | .unreadable (.unexpectedToken text) =>
    ∃ token, token.text = text ∧ ⟨token, s⟩ ∈ (scan source).tokens
  | .unreadable .unexpectedEnd =>
    piece = [] ∧ s = ⟨(Text.toUtf8 source).length, (Text.toUtf8 source).length⟩
  | .unreadable (.undefinedLabel name) =>
    foldCase (String.ofList piece) = name ∧ ⟨.ident (.unknown name), s⟩ ∈ (scan source).tokens
  | .unreadable (.invalidOperands mnemonic) =>
    ∃ os, s.IsCommand source mnemonic os ∧
      ∀ e ∈ opcodeTable, some e.mnemonic = mnemonic.mnemonic? →
        e.format.operands.length = os.length ∧
          ¬ (e.format.operands = os.map (·.shape.kind) ∧ e.special = Operand.special? os)
  | .invalidNumber digits =>
    foldCase (String.ofList piece) = digits ∧
      ∃ statements bits t, parse source = .ok statements ∧ IsOperand statements bits t ∧
        t.span = s ∧ t.token.literal? = some digits ∧ t.token.number? = none
  | .overflow field =>
    ∃ statements t, parse source = .ok statements ∧ IsOperand statements field.bits t ∧
      t.span = s ∧ t.StandsFor source piece ∧ DoesNotFit statements field.bits t.token
  | .programTooLarge =>
    ∃ statements c os, parse source = .ok statements ∧
      (commandsOf statements)[1792]? = some c ∧ s.IsCommand source c.mnemonic os
  | .noEntry _ | .malformedCommand | .missingLabel | .unresolvedLabel _ => False

/-- The diagnostic points at one place, at which there is a piece of the text that its
fault concerns. -/
structure AssemblyError.PointsAt (e : AssemblyError) (source : String) (s : Span)
    (piece : List Char) : Prop where
  extent : e.extent = .single s
  bounds : s.start ≤ s.stop ∧ s.stop ≤ (Text.toUtf8 source).length
  /-- The place begins and ends between characters. -/
  piece? : s.piece? source = some piece
  concerns : e.fault.Concerns source s piece

/-! ## Texts that are not read -/

variable {source : String} {stream : TokenStream} {statements : List Statement}

/-- An illegal character is where the diagnostic points at. -/
theorem exists_pointsAt_of_resolve {e : ParseError} (hError : resolve source = .error e) :
    ∃ s piece, (AssemblyError.ofParse e).PointsAt source s piece := by
  rcases legal_or_exists_first_illegal (scan source).tokens with
    hLegal | ⟨front, t, later, symbol, hText, hFront, hIllegal⟩
  · rw [resolve_of_legal hLegal] at hError
    exact absurd hError (by simp)
  · rw [resolve_of_illegal hText hFront hIllegal] at hError
    obtain rfl := Except.error.inj hError
    have hRead : t ∈ (scan source).tokens := by
      rw [hText]
      exact List.mem_append_right front List.mem_cons_self
    rcases exists_standsFor_of_read hRead rfl (.inl rfl) with ⟨lead, hStands⟩
    refine ⟨t.span, lead, rfl, Span.bounds_of_piece? hStands.piece?, hStands.piece?, ?_, ?_⟩
    · exact hStands.literal (by rw [hIllegal]; rfl)
    · rw [← hIllegal]
      exact hRead

/-- A token at which the reader of statements gets stuck is where the diagnostic points
at. Behind the last token it points at the end of the text. -/
theorem exists_pointsAt_of_stuck {e : ParseError} (hResolve : resolve source = .ok stream)
    (hStuck : Stuck stream.stop stream.tokens e) :
    ∃ s piece, (AssemblyError.ofParse e).PointsAt source s piece := by
  rcases hStuck with ⟨t, hMem | rfl, rfl⟩
  · rcases exists_read_of_resolve hResolve hMem with ⟨u, hRead, hSpan, hFrom⟩
    rcases exists_standsFor_of_read hRead hSpan hFrom with ⟨lead, hStands⟩
    have hPlace : ⟨u.token, t.span⟩ ∈ (scan source).tokens := by
      rw [hSpan]
      exact hRead
    refine ⟨t.span, lead, rfl, Span.bounds_of_piece? hStands.piece?, hStands.piece?, ?_⟩
    rw [AssemblyError.ofParse, ParseError.unexpected]
    dsimp only
    split
    · rename_i hEnd
      rw [hEnd] at hFrom
      exact absurd (hFrom.eq_of_ne (by simp) (by simp)).symm (plain_of_mem_scan hRead).2.2
    · rename_i symbol hIllegal
      refine ⟨hStands.literal (by rw [hIllegal]; rfl), ?_⟩
      rw [hIllegal] at hFrom
      rw [hFrom.eq_of_ne (by simp) (by simp)]
      exact hPlace
    · rename_i name hUnknown
      refine ⟨hStands.literal (by rw [hUnknown]; rfl), ?_⟩
      rw [hUnknown] at hFrom
      rw [hFrom.eq_of_ne (by simp) (by simp)]
      exact hPlace
    · exact ⟨u.token, hFrom.text, hPlace⟩
  · have hStop : stream.stop = (Text.toUtf8 source).length := by
      rw [length_toUtf8, stop_of_resolve hResolve]
    have hEnd : (⟨stream.stop, stream.stop⟩ : Span).piece? source = some [] := by
      rw [stop_of_resolve hResolve]
      exact Span.piece?_end source
    refine ⟨⟨stream.stop, stream.stop⟩, [], rfl, Span.bounds_of_piece? hEnd, hEnd, rfl, ?_⟩
    rw [hStop]

/-- Tokens of a resolved text that are written as an instruction are one at their
place. -/
theorem exists_isCommand_of_infix {row : List Located} {mnemonic : Ident} {os : List Operand}
    (hResolve : resolve source = .ok stream) (hRow : row <:+: stream.tokens)
    (hWritten : row.map (·.token) = .ident mnemonic :: Operand.row os) :
    (Span.cover (row.map (·.span))).IsCommand source mnemonic os ∧
      ∃ piece, (Span.cover (row.map (·.span))).piece? source = some piece := by
  have hTokens : row ≠ [] := by
    rintro rfl
    exact absurd hWritten (by simp)
  have hRuns := runs_cover hTokens
  refine ⟨⟨stream, row, hResolve, hRow, hWritten, fun t hMem => ?_, hRuns⟩, ?_⟩
  · exact exists_standsFor_of_resolve hResolve (hRow.mem hMem)
  · exact exists_piece?_of_runs hResolve hRow hRuns

/-- A diagnostic about a text that is not read points at what it concerns. -/
theorem exists_pointsAt_of_parse {e : ParseError} (hError : parse source = .error e) :
    ∃ s piece, (AssemblyError.ofParse e).PointsAt source s piece := by
  rcases bind_eq_error_iff.1 hError with hUnresolved | ⟨stream, hResolve, hRead⟩
  · exact exists_pointsAt_of_resolve hUnresolved
  · cases refused_of_readStatements hRead with
    | stuck hStuck => exact exists_pointsAt_of_stuck hResolve hStuck
    | @operands row mnemonic os hRow hWritten hCount hForm =>
        rcases exists_isCommand_of_infix hResolve hRow hWritten with ⟨hCommand, piece, hPiece⟩
        refine ⟨_, piece, rfl, Span.bounds_of_piece? hPiece, hPiece, os, hCommand,
          fun e hMem hMnemonic => ?_⟩
        have hNamed := Entry.mem_named.2 ⟨hMem, hMnemonic⟩
        refine ⟨Option.some.inj ((Entry.arity?_eq_some hNamed).symm.trans hCount), ?_⟩
        rintro ⟨hKinds, hSpecial⟩
        have hFound : formOf? mnemonic (os.map Operand.shape) = some e := by
          refine formOf?_eq_some_iff.2 ⟨hNamed, ?_, ?_⟩
          · simpa [Function.comp_def] using hKinds
          · simpa [Operand.special?, List.findSome?_map, Function.comp_def] using hSpecial
        exact absurd (hForm.symm.trans hFound) (by simp)

/-! ## Programs that are not assembled -/

/-- The tokens of an instruction stand in the text one behind the other. -/
theorem exists_infix_of_mem_commandsOf {c : Command} (hParse : parse source = .ok statements)
    (hMem : c ∈ commandsOf statements) :
    ∃ stream, resolve source = .ok stream ∧ c.tokens <:+: stream.tokens := by
  rcases exists_of_bind_eq_ok hParse with ⟨stream, hResolve, -⟩
  rcases (parse_eq_ok_iff hResolve).1 hParse with ⟨items, hTokens, rfl⟩
  rcases exists_item_of_mem_commandsOf hMem with ⟨w, hItem, hPlaced⟩
  refine ⟨stream, hResolve, ?_⟩
  rw [← hTokens, hPlaced, List.flatMap_def]
  exact List.infix_of_mem_flatten (List.mem_map_of_mem hItem)

/-- The first instruction outside of the memory for programs is the first one that is
too many. Those behind it may lie inside again, where addresses have wrapped. -/
theorem length_eq_of_first_outside {front back : List Command} {c : Command}
    (hLaid : Laid (UInt16.ofNat programStart) statements)
    (hRow : commandsOf statements = front ++ c :: back) (hFront : ∀ d ∈ front, d.Inside)
    (hOutside : ¬ c.Inside) : front.length = 1792 := by
  have hStart : (UInt16.ofNat programStart).toNat = 512 := rfl
  rcases Nat.lt_trichotomy front.length 1792 with hFew | hSame | hMany
  · have hHere : (commandsOf statements)[front.length]? = some c := by
      rw [hRow, List.getElem?_append_right (Nat.le_refl _), Nat.sub_self]
      rfl
    have hOffset := toNat_offset_of_laid hLaid hHere (by omega)
    refine absurd ?_ hOutside
    simp only [Command.Inside, programStart, memorySize]
    omega
  · exact hSame
  · have hHere : (commandsOf statements)[1792]? = some front[1792] := by
      rw [hRow, List.getElem?_append_left hMany, List.getElem?_eq_getElem hMany]
    have hOffset := toNat_offset_of_laid hLaid hHere (by omega)
    have hInside := hFront _ (List.getElem_mem hMany)
    simp only [Command.Inside, programStart, memorySize] at hInside
    omega

/-- The instruction that is too many is where the diagnostic points at. -/
theorem exists_pointsAt_of_foldlM_enter {e : AssemblyError} (hParse : parse source = .ok statements)
    (hError : SymbolTable.ofStatements? statements = .error e) :
    ∃ s piece, e.PointsAt source s piece := by
  have hReads := readsAs_of_parse hParse
  rcases exists_of_foldlM_enter hError with ⟨front, c, back, hRow, hFront, hOutside, rfl⟩
  have hCount := length_eq_of_first_outside hReads.laid hRow hFront hOutside
  have hHere : (commandsOf statements)[1792]? = some c := by
    rw [hRow, ← hCount, List.getElem?_append_right (Nat.le_refl _), Nat.sub_self]
    rfl
  have hMem := List.mem_of_getElem? hHere
  rcases hReads.form c hMem with ⟨entry, os, hForm⟩
  rcases exists_infix_of_mem_commandsOf hParse hMem with ⟨stream, hResolve, hInfix⟩
  rcases exists_isCommand_of_infix hResolve hInfix hForm.tokens with ⟨hCommand, piece, hPiece⟩
  exact ⟨c.span, piece, rfl, Span.bounds_of_piece? hPiece, hPiece,
    statements, c, os, hParse, hHere, hCommand⟩

/-- A number that cannot be read or does not fit is where the diagnostic points at, or
the label that has been replaced by such a number. -/
theorem exists_pointsAt_of_readValue {e : AssemblyError} {table : SymbolTable} {t t' : Located}
    {bits : Nat} {lead : List Char} (hParse : parse source = .ok statements)
    (hTable : SymbolTable.ofStatements? statements = .ok table)
    (hOperand : IsOperand statements bits t) (hStands : t.StandsFor source lead)
    (hUnsigned : t.token.Unsigned)
    (hTells : (∃ l : Literal, t.token = l.token) ∨ ∃ name, t.token = .labelRef name)
    (hResolved : table.resolveToken t = .ok t') (hError : readValue bits t' = .error e) :
    e.PointsAt source t.span lead := by
  have hPiece := hStands.piece?
  have hBounds := Span.bounds_of_piece? hPiece
  rcases hTells with ⟨l, hLiteral⟩ | ⟨name, hLabel⟩
  · rw [SymbolTable.resolveToken_of_number hLiteral] at hResolved
    obtain rfl := Except.ok.inj hResolved
    have hDigits : ∃ digits, t.token.literal? = some digits ∧
        (t.token = .decimal digits ∨ t.token = .hex digits) := by
      rw [hLiteral]
      cases l with
      | hex digits => exact ⟨digits, rfl, .inr rfl⟩
      | decimal digits => exact ⟨digits, rfl, .inl rfl⟩
    rcases hDigits with ⟨digits, hText, hToken⟩
    rcases readValue_error_cases hUnsigned hToken hError with ⟨rfl, hNone⟩ | ⟨rfl, hLarge⟩
    · exact ⟨rfl, hBounds, hPiece, hStands.literal hText,
        statements, bits, t, hParse, hOperand, rfl, hText, hNone⟩
    · exact ⟨rfl, hBounds, hPiece, statements, t, hParse, hOperand, rfl, hStands, .inl hLarge⟩
  · rcases (SymbolTable.resolveToken_of_labelRef hLabel).1 hResolved with ⟨address, hAddress, rfl⟩
    have hWord : readNumber bits
        { t with token := .decimal (Text.decimal address.toNat) } = .ok address := by
      simp [readNumber]
    have hValue : labelAddress? statements name = some address.toNat := by
      rw [← address?_of_ofStatements? (readsAs_of_parse hParse).laid hTable, hAddress]
      rfl
    rcases readValue_error_of_readNumber hWord hError with ⟨rfl, hLarge⟩
    exact ⟨rfl, hBounds, hPiece, statements, t, hParse, hOperand, rfl, hStands,
      .inr ⟨name, address.toNat, hLabel, hValue, hLarge⟩⟩

/-- A diagnostic about a text that is read points at what it concerns. -/
theorem exists_pointsAt_of_ofStatements {e : AssemblyError} (hParse : parse source = .ok statements)
    (hError : ObjectFile.ofStatements true statements = .error e) :
    ∃ s piece, e.PointsAt source s piece := by
  rcases bind_eq_error_iff.1 hError with hFirst | ⟨table, hTable, hSecond⟩
  · exact exists_pointsAt_of_foldlM_enter hParse hFirst
  · rcases exists_encode_of_ofResolved hParse hTable hSecond with
      ⟨c, hMem, c', hResolve, hEncodable, hFails⟩
    rcases hEncodable.exists_readValue hFails with ⟨fld, hField, t', hThere', hKind, -, hRead⟩
    have hFormat : c'.format = c.format := by
      rcases SymbolTable.resolve_eq_ok_iff.1 hResolve with ⟨ts, -, rfl⟩
      rfl
    rw [hFormat] at hField
    have hPosition : (fld.kind, fld.position) ∈ c.format.operandPositions := by
      rw [← Format.map_fields]
      exact List.mem_map_of_mem hField
    rcases (wellFormed_of_parse hParse hMem).operands _ _ hPosition with ⟨t, hThere, hTells⟩
    rcases SymbolTable.exists_getElem?_of_resolve hResolve hThere with ⟨u, hResolved, hStep⟩
    obtain rfl : u = t' := Option.some.inj (hResolved.symm.trans hThere')
    have hToken := List.mem_of_getElem? hThere
    rcases exists_infix_of_mem_commandsOf hParse hMem with ⟨stream, hStream, hInfix⟩
    rcases exists_standsFor_of_resolve hStream (hInfix.mem hToken) with ⟨lead, hStands⟩
    exact ⟨t.span, lead, exists_pointsAt_of_readValue hParse hTable
      ⟨c, hMem, fld, hField, hKind, rfl, hThere⟩ hStands
      ((readsAs_of_parse hParse).unsigned c hMem t hToken) (hTells hKind) hStep hRead⟩

/-! ## Labels -/

/-- The place of a label is that of the word which is written in front of the colon. -/
structure Label.Written (l : Label) (source : String) (word : List Char) : Prop where
  piece? : l.span.piece? source = some word
  name : foldCase (String.ofList word) = l.name
  /-- The word is read as it stands, and behind it a colon. -/
  tokens : ∃ k colon, (scan source).tokens[k]? = some ⟨.ident (.unknown l.name), l.span⟩ ∧
    (scan source).tokens[k + 1]? = some colon ∧ colon.token = .colon
  /-- In a text that is not longer than any text can be, the place ends at an offset. -/
  span? : (Text.toUtf8 source).length < offsetCount → l.span? = some l.span

/-- The labels of a text have the places at which they are written. -/
theorem exists_written_of_parse {l : Label} {offset : UInt16}
    (hParse : parse source = .ok statements) (hMem : Statement.label l offset ∈ statements) :
    ∃ word, l.Written source word := by
  rcases exists_of_bind_eq_ok hParse with ⟨stream, hResolve, -⟩
  rcases (parse_eq_ok_iff hResolve).1 hParse with ⟨items, hTokens, rfl⟩
  rcases exists_getElem?_of_label_mem hMem with ⟨k, t, colon, hHere, hNext, hName, hStart, hColon⟩
  rw [hTokens] at hHere hNext
  rcases exists_getElem?_of_resolve hResolve hHere with ⟨u, hRead, hSpan, hFrom⟩
  rcases exists_getElem?_of_resolve hResolve hNext with ⟨v, hReadNext, -, hFromNext⟩
  rcases exists_standsFor_of_read (List.mem_of_getElem? hRead) hSpan hFrom with ⟨word, hStands⟩
  have hWord : foldCase (String.ofList word) = l.name := hStands.literal (by rw [hName]; rfl)
  -- The end of the place is computed from the name, which has as many bytes as the word.
  have hPlace : t.span = l.span := by
    rcases hStands with ⟨front, rest, -, -, hBytes, -⟩
    rw [Label.span, ← hStart, hBytes, ← hWord, Text.toList_foldCase, Text.byteLength_map_toLower,
      String.toList_ofList, Text.byteLength_append]
  have hPiece : l.span.piece? source = some word := hPlace ▸ hStands.piece?
  have hUnknown : u.token = .ident (.unknown l.name) := by
    rw [hName] at hFrom
    exact hFrom.eq_unknown (plain_of_mem_scan (List.mem_of_getElem? hRead)).1
  refine ⟨word, hPiece, hWord, ⟨k, v, ?_, hReadNext, ?_⟩, fun hShort => ?_⟩
  · rw [hRead, ← hUnknown, ← hPlace, hSpan]
  · rw [hColon] at hFromNext
    exact (hFromNext.eq_of_ne (by simp) (by simp)).symm
  · have hBelow := Nat.lt_of_le_of_lt (Span.bounds_of_piece? hPiece).2 hShort
    exact Label.span?_eq_some_iff.2 ⟨rfl, hBelow⟩

/-! ## The diagnostics of a text -/

/-- Whatever is wrong with a text, the diagnostic points at one place, which is a piece
of the text: at the character, the word or the number that it quotes, at the number or
label that does not fit, at the end of the text if it ends too early, and at the whole
instruction if this is at fault. The labels of a text that is read have the places at
which they are written in it. -/
theorem ofSource_points_at (source : String) :
    (∀ e, ObjectFile.ofSource source = .error e → ∃ s piece, e.PointsAt source s piece) ∧
      ∀ statements, parse source = .ok statements →
        ∀ l offset, .label l offset ∈ statements → ∃ word, l.Written source word := by
  refine ⟨fun e hError => ?_, fun statements hParse l offset => exists_written_of_parse hParse⟩
  cases hParse : parse source with
  | error fault =>
      rw [ObjectFile.ofSource, hParse] at hError
      rw [← Except.error.inj hError]
      exact exists_pointsAt_of_parse hParse
  | ok statements =>
      rw [ObjectFile.ofSource_of_parse hParse] at hError
      exact exists_pointsAt_of_ofStatements hParse hError

/-- A comment that is not in ASCII, and a word of digits that is no number. -/
def misspeltBehindAccent : String := "# é\nmov reg[0], 12A"

/-- A label that begins with a capital. -/
def capitalLabel : String := "# é\nLoop: ret"

theorem ofSource_points_at_misspelt :
    (∃ e, ObjectFile.ofSource misspeltBehindAccent = .error e ∧ e.fault = .invalidNumber "12a" ∧
      e.PointsAt misspeltBehindAccent ⟨17, 20⟩ ['1', '2', 'A']) ∧
    ∃ statements l offset, parse capitalLabel = .ok statements ∧ .label l offset ∈ statements ∧
      l.name = "loop" ∧ l.Written capitalLabel ['L', 'o', 'o', 'p'] := by
  constructor
  · have hError : ObjectFile.ofSource misspeltBehindAccent =
        .error ⟨.invalidNumber "12a", .single ⟨17, 20⟩⟩ := by decide +kernel
    have hThere : (⟨17, 20⟩ : Span).piece? misspeltBehindAccent = some ['1', '2', 'A'] := by
      decide +kernel
    rcases (ofSource_points_at misspeltBehindAccent).1 _ hError with ⟨s, piece, hPoints⟩
    obtain rfl : ⟨17, 20⟩ = s := List.head_eq_of_cons_eq (Extent.mk.inj hPoints.extent)
    obtain rfl : piece = ['1', '2', 'A'] :=
      Option.some.inj (hPoints.piece?.symm.trans hThere)
    exact ⟨_, hError, rfl, hPoints⟩
  · have hLabel : (parse capitalLabel).toOption.map (fun statements => statements.head?) =
        some (some (.label ⟨"loop", 5⟩ 512)) := by decide +kernel
    have hThere : (Label.mk "loop" 5).span.piece? capitalLabel = some ['L', 'o', 'o', 'p'] := by
      decide +kernel
    cases hParse : parse capitalLabel with
    | error e => simp [hParse, Except.toOption] at hLabel
    | ok statements =>
        have hHead : statements.head? = some (.label ⟨"loop", 5⟩ 512) := by
          simpa [hParse, Except.toOption] using hLabel
        have hMem := List.mem_of_head? hHead
        rcases (ofSource_points_at capitalLabel).2 statements hParse _ _ hMem with ⟨word, hWritten⟩
        obtain rfl : word = ['L', 'o', 'o', 'p'] :=
          Option.some.inj (hWritten.piece?.symm.trans hThere)
        exact ⟨statements, _, _, rfl, hMem, rfl, hWritten⟩

end Chip8.Asm

import Chip8.Asm.Statement.Reader
import Chip8.Proofs.Isa.Selection

/-!
# Instructions as they are written

The grammar of an instruction, as a way to write it: an instruction is its mnemonic and
a row of operands with commas between them, and an operand is a register in brackets,
the name of a special register, a number, or a label. The reader accepts exactly what is
written so, provided that some entry of the opcode table has the mnemonic, the kinds of
the operands and the special register among them.

The reader takes the number of operands from the first entry of the mnemonic and looks
for the entry only afterwards. All entries of a mnemonic have equally many operands, so
that this is no restriction.

## Main definitions

* `Literal`, `Operand`, `Operand.row` — operands, and the tokens that they are written
  as.
* `Command.Form` — an instruction has an entry and operands.

## Main results

* `readOperand_eq_ok_iff`, `readOperands_eq_ok_iff` — what is read as operands.
* `readCommand_eq_ok_iff` — what is read as an instruction.
-/

namespace Chip8.Asm

/-! ## Operands -/

/-- A number as it is written. -/
inductive Literal where
  | hex (digits : String)
  | decimal (digits : String)
  deriving DecidableEq, Repr

/-- The token of a number. -/
def Literal.token : Literal → Token
  | hex digits => .hex digits
  | decimal digits => .decimal digits

/-- An operand as it is written. -/
inductive Operand where
  | register (l : Literal)
  | special (s : Special)
  | number (l : Literal)
  | label (name : String)
  deriving DecidableEq, Repr

namespace Operand

/-- The tokens of an operand. -/
def tokens : Operand → List Token
  | register l => [.ident (.keyword .reg), .openBracket, l.token, .closeBracket]
  | special s => [.ident (.keyword (.special s))]
  | number l => [l.token]
  | label name => [.labelRef name]

/-- What the reader notes of an operand. -/
def shape : Operand → OperandShape
  | register _ => ⟨.register, none⟩
  | special s => ⟨.special, some s⟩
  | number _ => ⟨.value, none⟩
  | label _ => ⟨.value, none⟩

/-- The tokens of operands behind another one, each with the comma in front of it. -/
def tail (os : List Operand) : List Token := os.flatMap fun o => .comma :: o.tokens

/-- The tokens of a row of operands. -/
def row : List Operand → List Token
  | [] => []
  | o :: os => o.tokens ++ tail os

theorem tail_cons (o : Operand) (os : List Operand) :
    tail (o :: os) = .comma :: (o.tokens ++ tail os) := by
  simp [tail]

/-- A token of a row is a comma or belongs to an operand. -/
theorem eq_comma_or_exists_of_mem_row {t : Token} {os : List Operand} (h : t ∈ row os) :
    t = .comma ∨ ∃ o ∈ os, t ∈ o.tokens := by
  cases os with
  | nil => exact absurd h List.not_mem_nil
  | cons o os =>
      rcases List.mem_append.1 h with hHead | hTail
      · exact .inr ⟨o, List.mem_cons_self, hHead⟩
      · rcases List.mem_flatMap.1 hTail with ⟨o', ho', hMem⟩
        rcases List.mem_cons.1 hMem with hComma | hMem
        · exact .inl hComma
        · exact .inr ⟨o', List.mem_cons_of_mem o ho', hMem⟩

/-- The special register among operands is the first that they name. -/
def special? (os : List Operand) : Option Special := os.findSome? (·.shape.special)

end Operand

/-! ## Reading operands -/

theorem expect_eq_ok_iff {stop : Nat} {expected : Token} {ts rest : List Located} {t : Located} :
    expect stop expected ts = .ok (t, rest) ↔ ts = t :: rest ∧ t.token = expected := by
  constructor
  · exact cons_of_expect
  · intro hGiven
    rcases hGiven with ⟨rfl, hToken⟩
    simp [expect, hToken]

private theorem expectNumber_eq_ok_iff {stop : Nat} {ts rest : List Located} {t : Located} :
    expectNumber stop ts = .ok (t, rest) ↔
      ts = t :: rest ∧ ∃ l : Literal, t.token = l.token := by
  constructor
  · intro h
    obtain rfl := cons_of_expectNumber h
    refine ⟨rfl, ?_⟩
    simp only [expectNumber] at h
    split at h
    · rename_i digits hToken
      exact ⟨.hex digits, hToken⟩
    · rename_i digits hToken
      exact ⟨.decimal digits, hToken⟩
    · simp at h
  · intro hGiven
    rcases hGiven with ⟨rfl, l, hToken⟩
    cases l <;> simp [expectNumber, hToken, Literal.token]

/-- A register is read if its tokens come next. -/
theorem readOperand_register {stop : Nat} {t opening number closing : Located}
    {rest : List Located} {l : Literal} (ht : t.token = .ident (.keyword .reg))
    (hOpening : opening.token = .openBracket) (hNumber : number.token = l.token)
    (hClosing : closing.token = .closeBracket) :
    readOperand stop (t :: opening :: number :: closing :: rest) =
      .ok (⟨.register, none⟩, [t, opening, number, closing], rest) := by
  have h₁ : expect stop .openBracket (opening :: number :: closing :: rest) =
      .ok (opening, number :: closing :: rest) := expect_eq_ok_iff.2 ⟨rfl, hOpening⟩
  have h₂ : expectNumber stop (number :: closing :: rest) = .ok (number, closing :: rest) :=
    expectNumber_eq_ok_iff.2 ⟨rfl, l, hNumber⟩
  have h₃ : expect stop .closeBracket (closing :: rest) = .ok (closing, rest) :=
    expect_eq_ok_iff.2 ⟨rfl, hClosing⟩
  simp only [readOperand, ht, h₁, h₂, h₃, bind, Except.bind, pure, Except.pure]

/-- An operand of a single token is read if that token comes next. -/
theorem readOperand_single {stop : Nat} {t : Located} {rest : List Located} {o : Operand}
    (ht : o.tokens = [t.token]) : readOperand stop (t :: rest) = .ok (o.shape, [t], rest) := by
  cases o with
  | register l => simp [Operand.tokens] at ht
  | special s =>
      have hName : t.token = .ident (.keyword (.special s)) := (List.singleton_inj.1 ht).symm
      simp only [readOperand, hName, Operand.shape]
  | number l =>
      have hNumber : t.token = l.token := (List.singleton_inj.1 ht).symm
      cases l <;> simp only [readOperand, hNumber, Literal.token, Operand.shape]
  | label name =>
      have hName : t.token = .labelRef name := (List.singleton_inj.1 ht).symm
      simp only [readOperand, hName, Operand.shape]

/-- What is read as an operand is what an operand is written as. -/
theorem readOperand_eq_ok_iff {stop : Nat} {ts operand rest : List Located}
    {shape : OperandShape} :
    readOperand stop ts = .ok (shape, operand, rest) ↔
      ∃ o : Operand, ts = operand ++ rest ∧ operand.map (·.token) = o.tokens ∧
        shape = o.shape := by
  constructor
  · intro h
    have hAppend := append_of_readOperand h
    cases ts with
    | nil => simp [readOperand] at h
    | cons t ts =>
        have hSingle : ∀ o : Operand, o.tokens = [t.token] → ∃ o : Operand,
            t :: ts = operand ++ rest ∧ operand.map (·.token) = o.tokens ∧ shape = o.shape := by
          intro o ho
          rw [readOperand_single ho] at h
          simp only [Except.ok.injEq, Prod.mk.injEq] at h
          obtain ⟨rfl, rfl, rfl⟩ := h
          exact ⟨o, rfl, ho.symm, rfl⟩
        simp only [readOperand] at h
        split at h
        · rename_i ht
          obtain ⟨⟨opening, ts₁⟩, hOpening, h⟩ := exists_of_bind_eq_ok h
          obtain ⟨⟨number, ts₂⟩, hNumber, h⟩ := exists_of_bind_eq_ok h
          obtain ⟨⟨closing, ts₃⟩, hClosing, h⟩ := exists_of_bind_eq_ok h
          simp only [pure, Except.pure, Except.ok.injEq, Prod.mk.injEq] at h
          obtain ⟨rfl, rfl, rfl⟩ := h
          obtain ⟨-, l, hl⟩ := expectNumber_eq_ok_iff.1 hNumber
          have hBrackets := And.intro (expect_eq_ok_iff.1 hOpening).2
            (expect_eq_ok_iff.1 hClosing).2
          exact ⟨.register l, hAppend, by simp [Operand.tokens, ht, hl, hBrackets], rfl⟩
        · rename_i s ht
          exact hSingle (.special s) (by rw [ht, Operand.tokens])
        · rename_i digits ht
          exact hSingle (.number (.hex digits)) (by rw [ht, Operand.tokens, Literal.token])
        · rename_i digits ht
          exact hSingle (.number (.decimal digits)) (by rw [ht, Operand.tokens, Literal.token])
        · rename_i name ht
          exact hSingle (.label name) (by rw [ht, Operand.tokens])
        · simp at h
  · intro hGiven
    rcases hGiven with ⟨o, rfl, hTokens, rfl⟩
    have hOne : ∀ token, o.tokens = [token] →
        readOperand stop (operand ++ rest) = .ok (o.shape, operand, rest) := by
      intro token hToken
      rw [hToken] at hTokens
      obtain ⟨t, rfl, rfl⟩ := List.map_eq_singleton_iff.1 hTokens
      exact readOperand_single hToken
    cases o with
    | register l =>
        simp only [Operand.tokens, List.map_eq_cons_iff, List.map_eq_nil_iff] at hTokens
        obtain ⟨t, _, rfl, ht, opening, _, rfl, hOpening, number, _, rfl, hNumber, closing, _,
          rfl, hClosing, rfl⟩ := hTokens
        exact readOperand_register ht hOpening hNumber hClosing
    | special s => exact hOne _ rfl
    | number l => exact hOne _ rfl
    | label name => exact hOne _ rfl

/-- What is read as operands behind another one. -/
theorem readMoreOperands_eq_ok_iff {stop count : Nat} {ts operands rest : List Located}
    {shapes : List OperandShape} :
    readMoreOperands stop count ts = .ok (shapes, operands, rest) ↔
      ∃ os : List Operand, os.length = count ∧ ts = operands ++ rest ∧
        operands.map (·.token) = Operand.tail os ∧ shapes = os.map Operand.shape := by
  constructor
  · intro h
    have hAppend := append_of_readMoreOperands h
    induction count generalizing ts operands rest shapes with
    | zero =>
        simp only [readMoreOperands, Except.ok.injEq, Prod.mk.injEq] at h
        obtain ⟨rfl, rfl, -⟩ := h
        exact ⟨[], rfl, hAppend, rfl, rfl⟩
    | succ count ih =>
        obtain ⟨⟨comma, ts₁⟩, hComma, h⟩ := exists_of_bind_eq_ok h
        obtain ⟨⟨shape, operand, ts₂⟩, hOperand, h⟩ := exists_of_bind_eq_ok h
        obtain ⟨⟨shapes', operands', ts₃⟩, hMore, h⟩ := exists_of_bind_eq_ok h
        simp only [pure, Except.pure, Except.ok.injEq, Prod.mk.injEq] at h
        obtain ⟨rfl, rfl, rfl⟩ := h
        obtain ⟨o, -, ho, rfl⟩ := readOperand_eq_ok_iff.1 hOperand
        obtain ⟨os, hCount, -, hos, rfl⟩ := ih hMore (append_of_readMoreOperands hMore)
        refine ⟨o :: os, by simp [hCount], hAppend, ?_, rfl⟩
        rw [Operand.tail_cons, ← ho, ← hos, ← (expect_eq_ok_iff.1 hComma).2]
        simp
  · intro hGiven
    rcases hGiven with ⟨os, rfl, rfl, hTokens, rfl⟩
    induction os generalizing operands with
    | nil =>
        obtain rfl := List.map_eq_nil_iff.1 hTokens
        rfl
    | cons o os ih =>
        rw [Operand.tail_cons, List.map_eq_cons_iff] at hTokens
        obtain ⟨comma, behind, rfl, hComma, hBehind⟩ := hTokens
        obtain ⟨operand, more, rfl, hOperand, hMore⟩ := List.map_eq_append_iff.1 hBehind
        have h₁ : expect stop .comma (comma :: (operand ++ (more ++ rest))) =
            .ok (comma, operand ++ (more ++ rest)) := expect_eq_ok_iff.2 ⟨rfl, hComma⟩
        have h₂ : readOperand stop (operand ++ (more ++ rest)) =
            .ok (o.shape, operand, more ++ rest) :=
          readOperand_eq_ok_iff.2 ⟨o, rfl, hOperand, rfl⟩
        simp only [List.length_cons, readMoreOperands, List.cons_append, List.append_assoc, h₁,
          h₂, ih hMore, bind, Except.bind, pure, Except.pure, List.map_cons]

/-- What is read as a number of operands is what a row of that many is written as. -/
theorem readOperands_eq_ok_iff {stop count : Nat} {ts operands rest : List Located}
    {shapes : List OperandShape} :
    readOperands stop count ts = .ok (shapes, operands, rest) ↔
      ∃ os : List Operand, os.length = count ∧ ts = operands ++ rest ∧
        operands.map (·.token) = Operand.row os ∧ shapes = os.map Operand.shape := by
  constructor
  · intro h
    have hAppend := append_of_readOperands h
    cases count with
    | zero =>
        simp only [readOperands, Except.ok.injEq, Prod.mk.injEq] at h
        obtain ⟨rfl, rfl, -⟩ := h
        exact ⟨[], rfl, hAppend, rfl, rfl⟩
    | succ count =>
        obtain ⟨⟨shape, operand, ts₁⟩, hOperand, h⟩ := exists_of_bind_eq_ok h
        obtain ⟨⟨shapes', operands', ts₂⟩, hMore, h⟩ := exists_of_bind_eq_ok h
        simp only [pure, Except.pure, Except.ok.injEq, Prod.mk.injEq] at h
        obtain ⟨rfl, rfl, rfl⟩ := h
        obtain ⟨o, -, ho, rfl⟩ := readOperand_eq_ok_iff.1 hOperand
        obtain ⟨os, hCount, -, hos, rfl⟩ := readMoreOperands_eq_ok_iff.1 hMore
        refine ⟨o :: os, by simp [hCount], hAppend, ?_, rfl⟩
        rw [Operand.row, ← ho, ← hos, List.map_append]
  · intro hGiven
    rcases hGiven with ⟨os, rfl, rfl, hTokens, rfl⟩
    cases os with
    | nil =>
        obtain rfl := List.map_eq_nil_iff.1 hTokens
        rfl
    | cons o os =>
        obtain ⟨operand, more, rfl, hOperand, hMore⟩ := List.map_eq_append_iff.1 hTokens
        have h₁ : readOperand stop (operand ++ (more ++ rest)) =
            .ok (o.shape, operand, more ++ rest) :=
          readOperand_eq_ok_iff.2 ⟨o, rfl, hOperand, rfl⟩
        have h₂ : readMoreOperands stop os.length (more ++ rest) =
            .ok (os.map Operand.shape, more, rest) :=
          readMoreOperands_eq_ok_iff.2 ⟨os, rfl, rfl, hMore, rfl⟩
        simp only [List.length_cons, readOperands, List.append_assoc, h₁, h₂, bind, Except.bind,
          pure, Except.pure, List.map_cons]

/-! ## Reading an instruction -/

/-- An instruction has the entry `e`, and `os` is the row of operands that it is written
with. -/
structure Command.Form (c : Command) (e : Entry) (os : List Operand) : Prop where
  mem : e ∈ opcodeTable
  mnemonic : some e.mnemonic = c.mnemonic.mnemonic?
  format : e.format = c.format
  kinds : e.format.operands = os.map (·.shape.kind)
  special : e.special = Operand.special? os
  tokens : c.tokens.map (·.token) = .ident c.mnemonic :: Operand.row os

theorem formOf?_eq_some_iff {mnemonic : Ident} {shapes : List OperandShape} {e : Entry} :
    formOf? mnemonic shapes = some e ↔
      e ∈ Entry.named mnemonic ∧ e.format.operands = shapes.map (·.kind) ∧
        e.special = shapes.findSome? (·.special) := by
  rw [formOf?, Entry.find?_iff_of_unique]
  · simp
  · intro a ha b hb hpa hpb
    simp only [decide_eq_true_eq] at hpa hpb
    obtain ⟨hma, hna⟩ := Entry.mem_named.1 ha
    obtain ⟨hmb, hnb⟩ := Entry.mem_named.1 hb
    exact Entry.eq_of_written a hma b hmb (Option.some.inj (hna.trans hnb.symm))
      (Format.operands_injective (hpa.1.trans hpb.1.symm)) (hpa.2.trans hpb.2.symm)

/-- What is read as an instruction is what an instruction is written as. -/
theorem readCommand_eq_ok_iff {stop : Nat} {offset : UInt16} {mnemonic : Ident}
    {lead : Located} {ts rest : List Located} {c : Command}
    (hLead : lead.token = .ident mnemonic) :
    readCommand stop offset mnemonic lead ts = .ok (c, rest) ↔
      c.mnemonic = mnemonic ∧ c.offset = offset ∧ lead :: ts = c.tokens ++ rest ∧
        ∃ e os, c.Form e os := by
  constructor
  · intro h
    have hAppend := append_of_readCommand h
    unfold readCommand at h
    split at h
    · simp at h
    · obtain ⟨⟨shapes, operands, ts'⟩, hOperands, h⟩ := exists_of_bind_eq_ok h
      simp only at h
      split at h
      · rename_i e hForm
        simp only [Except.ok.injEq, Prod.mk.injEq] at h
        obtain ⟨rfl, rfl⟩ := h
        obtain ⟨os, -, -, hTokens, rfl⟩ := readOperands_eq_ok_iff.1 hOperands
        obtain ⟨hNamed, hKinds, hSpecial⟩ := formOf?_eq_some_iff.1 hForm
        obtain ⟨hMem, hMnemonic⟩ := Entry.mem_named.1 hNamed
        refine ⟨rfl, rfl, hAppend, e, os, ?_⟩
        exact
          { mem := hMem
            mnemonic := hMnemonic
            format := rfl
            kinds := by simpa [Function.comp_def] using hKinds
            special := by simpa [Operand.special?, List.findSome?_map, Function.comp_def] using
              hSpecial
            tokens := by simp [hLead, hTokens] }
      · simp at h
  · intro hGiven
    rcases hGiven with ⟨hm, hOffset, hAppend, e, os, hForm⟩
    obtain ⟨cm, cf, ctokens, coffset⟩ := c
    obtain ⟨hMem, hMnemonic, hFormat, hKinds, hSpecial, hTokens⟩ := hForm
    simp only at hm hOffset hAppend hMnemonic hFormat hTokens
    subst hm hOffset hFormat
    obtain ⟨first, operands, rfl, -, hOperands⟩ := List.map_eq_cons_iff.1 hTokens
    rw [List.cons_append, List.cons.injEq] at hAppend
    obtain ⟨rfl, rfl⟩ := hAppend
    have hNamed : e ∈ Entry.named cm := Entry.mem_named.2 ⟨hMem, hMnemonic⟩
    have hArity : Entry.arity? cm = some os.length := by
      rw [Entry.arity?_eq_some hNamed, hKinds, List.length_map]
    have hRead : readOperands stop os.length (operands ++ rest) =
        .ok (os.map Operand.shape, operands, rest) :=
      readOperands_eq_ok_iff.2 ⟨os, rfl, rfl, hOperands, rfl⟩
    have hFound : formOf? cm (os.map Operand.shape) = some e := by
      refine formOf?_eq_some_iff.2 ⟨hNamed, ?_, ?_⟩
      · simpa [Function.comp_def] using hKinds
      · simpa [Operand.special?, List.findSome?_map, Function.comp_def] using hSpecial
    simp only [readCommand, hArity, hRead, hFound, bind, Except.bind]

/-! ## One way to read an instruction -/

theorem Literal.token_injective {l l' : Literal} (h : l.token = l'.token) : l = l' := by
  cases l <;> cases l' <;> simp_all [Literal.token]

/-- The tokens of an operand tell where it ends, and which one it is. -/
theorem Operand.eq_of_tokens_append {o o' : Operand} {ts ts' : List Token}
    (h : o.tokens ++ ts = o'.tokens ++ ts') : o = o' ∧ ts = ts' := by
  have hLiteral : ∀ l l' : Literal, l.token = l'.token ↔ l = l' :=
    fun l l' => ⟨Literal.token_injective, congrArg Literal.token⟩
  cases o with
  | register l =>
      cases o' with
      | number l' => cases l' <;> simp [tokens, Literal.token] at h
      | _ => simp_all [tokens]
  | special s =>
      cases o' with
      | number l' => cases l' <;> simp [tokens, Literal.token] at h
      | _ => simp_all [tokens]
  | number l =>
      cases o' with
      | number l' => simpa [tokens, hLiteral] using h
      | _ => cases l <;> simp [tokens, Literal.token] at h
  | label name =>
      cases o' with
      | number l' => cases l' <;> simp [tokens, Literal.token] at h
      | _ => simp_all [tokens]

private theorem Operand.tail_injective {os os' : List Operand} (h : tail os = tail os') :
    os = os' := by
  induction os generalizing os' with
  | nil =>
      cases os' with
      | nil => rfl
      | cons o' os' => simp [tail] at h
  | cons o os ih =>
      cases os' with
      | nil => simp [tail] at h
      | cons o' os' =>
          rw [tail_cons, tail_cons, List.cons.injEq] at h
          obtain ⟨rfl, hRest⟩ := eq_of_tokens_append h.2
          rw [ih hRest]

private theorem Operand.row_injective {os os' : List Operand} (h : row os = row os') :
    os = os' := by
  have hNe : ∀ o : Operand, o.tokens ≠ [] := by
    intro o
    cases o <;> simp [tokens]
  cases os with
  | nil =>
      cases os' with
      | nil => rfl
      | cons o' os' => exact absurd (List.append_eq_nil_iff.1 h.symm).1 (hNe o')
  | cons o os =>
      cases os' with
      | nil => exact absurd (List.append_eq_nil_iff.1 h).1 (hNe o)
      | cons o' os' =>
          obtain ⟨rfl, hRest⟩ := eq_of_tokens_append h
          rw [tail_injective hRest]

/-- An instruction has only one form. -/
theorem Command.Form.unique {c : Command} {e e' : Entry} {os os' : List Operand}
    (h : c.Form e os) (h' : c.Form e' os') : e = e' ∧ os = os' := by
  have hRow : Operand.row os = Operand.row os' := by
    have hTokens := h.tokens.symm.trans h'.tokens
    simpa using hTokens
  obtain rfl := Operand.row_injective hRow
  exact ⟨Entry.eq_of_written e h.mem e' h'.mem
    (Option.some.inj (h.mnemonic.trans h'.mnemonic.symm)) (h.format.trans h'.format.symm)
    (h.special.trans h'.special.symm), rfl⟩

end Chip8.Asm

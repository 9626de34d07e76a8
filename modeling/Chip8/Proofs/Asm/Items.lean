import Chip8.Proofs.Asm.Layout
import Chip8.Proofs.Asm.Word

/-!
# The items of a text

The grammar of a text: its tokens are a concatenation of items, each of which is a
comment, a label with its colon, or an instruction as it is written. The reader accepts
exactly such texts, and its statements are the items without the comments.

Nothing marks the end of an instruction, so that the grammar could be ambiguous. It is
not, since all entries of a mnemonic have equally many operands: an instruction ends
where its last operand does, and what begins there is the next item.

## Main definitions

* `WrittenCommand` — an instruction with its entry, its operands and its tokens.
* `Item`, `Item.tokens` — the items of a text.
* `statementsFrom` — the statements that items make up.

## Main results

* `WrittenCommand.eq_of_tokens_append`, `eq_of_flatMap_tokens` — tokens are items in one
  way.
* `readStatements_eq_ok_iff` — what the reader accepts.
* `parse_reads_items` — texts and their items.
-/

namespace Chip8

/-- The number of tokens of an instruction, operand by operand. -/
theorem Format.tokenCount_eq (f : Format) :
    f.tokenCount = 1 + (f.operands.map (·.width)).sum + (f.operands.length - 1) := by
  cases f <;> rfl

namespace Asm

/-- An instruction as it is written: an entry of the opcode table, operands of its kinds
and with its special register, and the tokens of the mnemonic and these operands. -/
@[ext]
structure WrittenCommand where
  entry : Entry
  operands : List Operand
  tokens : List Located
  mem : entry ∈ opcodeTable
  kinds : entry.format.operands = operands.map (·.shape.kind)
  special : entry.special = Operand.special? operands
  written : tokens.map (·.token) =
    .ident (.keyword (.mnemonic entry.mnemonic)) :: Operand.row operands

/-- An item of a text. -/
inductive Item where
  | comment (t : Located) (h : t.token = .comment)
  | label (name : String) (t colon : Located) (hName : t.token = .labelDef name)
    (hColon : colon.token = .colon)
  | command (w : WrittenCommand)

/-- The tokens of an item. -/
def Item.tokens : Item → List Located
  | comment t _ => [t]
  | label _ t colon _ _ => [t, colon]
  | command w => w.tokens

/-- The instruction at an address. -/
def WrittenCommand.placed (w : WrittenCommand) (address : UInt16) : Command :=
  ⟨.keyword (.mnemonic w.entry.mnemonic), w.entry.format, w.tokens, address⟩

/-- The statements that items make up, the next instruction lying at `address`. -/
def statementsFrom (address : UInt16) : List Item → List Statement
  | [] => []
  | .comment _ _ :: items => statementsFrom address items
  | .label name t _ _ _ :: items =>
    .label ⟨name, t.span.start⟩ address :: statementsFrom address items
  | .command w :: items => .command (w.placed address) :: statementsFrom (address + 2) items

/-! ## Written instructions -/

/-- Rows of equally many operands end at the same token, whatever follows. -/
theorem Operand.tail_append_injective {os os' : List Operand} {ts us : List Token}
    (hCount : os.length = os'.length) (h : tail os ++ ts = tail os' ++ us) :
    os = os' ∧ ts = us := by
  induction os generalizing os' with
  | nil =>
      obtain rfl : os' = [] := List.length_eq_zero_iff.1 hCount.symm
      exact ⟨rfl, h⟩
  | cons o os ih =>
      cases os' with
      | nil => exact absurd hCount (by simp)
      | cons o' os' =>
          simp only [tail_cons, List.cons_append, List.append_assoc, List.cons.injEq,
            true_and] at h
          rcases eq_of_tokens_append h with ⟨rfl, hRest⟩
          rcases ih (Nat.succ.inj hCount) hRest with ⟨rfl, rfl⟩
          exact ⟨rfl, rfl⟩

private theorem Operand.row_append_injective {os os' : List Operand} {ts us : List Token}
    (hCount : os.length = os'.length) (h : row os ++ ts = row os' ++ us) :
    os = os' ∧ ts = us := by
  cases os with
  | nil =>
      obtain rfl : os' = [] := List.length_eq_zero_iff.1 hCount.symm
      exact ⟨rfl, h⟩
  | cons o os =>
      cases os' with
      | nil => exact absurd hCount (by simp)
      | cons o' os' =>
          simp only [row, List.append_assoc] at h
          rcases eq_of_tokens_append h with ⟨rfl, hRest⟩
          rcases tail_append_injective (Nat.succ.inj hCount) hRest with ⟨rfl, rfl⟩
          exact ⟨rfl, rfl⟩

private theorem Operand.length_tail (os : List Operand) :
    (tail os).length = (os.map (·.shape.kind.width)).sum + os.length := by
  induction os with
  | nil => rfl
  | cons o os ih =>
      simp only [tail_cons, List.length_cons, List.length_append, length_tokens, List.map_cons,
        List.sum_cons, ih]
      omega

/-- A comma stands in front of every operand but the first. -/
theorem Operand.length_row (os : List Operand) :
    (row os).length = (os.map (·.shape.kind.width)).sum + (os.length - 1) := by
  cases os with
  | nil => rfl
  | cons o os =>
      simp only [row, List.length_append, length_tokens, length_tail, List.map_cons,
        List.sum_cons, List.length_cons, Nat.add_sub_cancel]
      omega

namespace WrittenCommand

/-- An instruction takes as many tokens as its format says. -/
theorem length_tokens (w : WrittenCommand) : w.tokens.length = w.entry.format.tokenCount := by
  have hWritten := congrArg List.length w.written
  rw [List.length_map, List.length_cons, Operand.length_row] at hWritten
  rw [hWritten, Format.tokenCount_eq, w.kinds, List.map_map, List.length_map]
  simp only [Function.comp_def]
  omega

private theorem form_placed (w : WrittenCommand) (address : UInt16) :
    (w.placed address).Form w.entry w.operands where
  mem := w.mem
  mnemonic := rfl
  format := rfl
  kinds := w.kinds
  special := w.special
  tokens := w.written

/-- No other entry has the mnemonic, kinds of operands and special register. -/
theorem eq_entry (w : WrittenCommand) {e : Entry} (hMem : e ∈ opcodeTable)
    (hMnemonic : e.mnemonic = w.entry.mnemonic)
    (hKinds : e.format.operands = w.operands.map (·.shape.kind))
    (hSpecial : e.special = Operand.special? w.operands) : e = w.entry :=
  Entry.eq_of_written e hMem w.entry w.mem hMnemonic
    (Format.operands_injective (hKinds.trans w.kinds.symm)) (hSpecial.trans w.special.symm)

/-- The tokens of a text tell where an instruction at their beginning ends, and which
one it is. -/
theorem eq_of_tokens_append {v w : WrittenCommand} {ts us : List Located}
    (h : v.tokens ++ ts = w.tokens ++ us) : v = w ∧ ts = us := by
  have hWritten := congrArg (List.map (·.token)) h
  simp only [List.map_append, v.written, w.written, List.cons_append, List.cons.injEq,
    Token.ident.injEq, Ident.keyword.injEq, Keyword.mnemonic.injEq] at hWritten
  have hArity := Entry.uniform_arity v.entry v.mem w.entry w.mem hWritten.1
  rw [v.kinds, w.kinds, List.length_map, List.length_map] at hArity
  have hOperands := (Operand.row_append_injective hArity hWritten.2).1
  have hLength : v.tokens.length = w.tokens.length := by
    have hRow : v.tokens.map (·.token) = w.tokens.map (·.token) := by
      rw [v.written, w.written, hWritten.1, hOperands]
    simpa using congrArg List.length hRow
  have hEntry : v.entry = w.entry :=
    w.eq_entry v.mem hWritten.1 (hOperands ▸ v.kinds) (hOperands ▸ v.special)
  rcases List.append_inj h hLength with ⟨hTokens, hRest⟩
  exact ⟨WrittenCommand.ext hEntry hOperands hTokens, hRest⟩

end WrittenCommand

/-! ## One way to take tokens apart -/

namespace Item

/-- The token that an item begins with. -/
def lead : Item → Token
  | comment _ _ => .comment
  | label name _ _ _ _ => .labelDef name
  | command w => .ident (.keyword (.mnemonic w.entry.mnemonic))

private theorem exists_cons (item : Item) :
    ∃ t ts, item.tokens = t :: ts ∧ t.token = item.lead := by
  cases item with
  | comment t hComment => exact ⟨t, [], rfl, hComment⟩
  | label name t colon hName hColon => exact ⟨t, [colon], rfl, hName⟩
  | command w =>
      rcases List.map_eq_cons_iff.1 w.written with ⟨t, ts, hTokens, hLead, -⟩
      exact ⟨t, ts, hTokens, hLead⟩

/-- The tokens of a text tell where an item at their beginning ends, and which one it
is. -/
theorem eq_of_tokens_append {item item' : Item} {ts us : List Located}
    (h : item.tokens ++ ts = item'.tokens ++ us) : item = item' ∧ ts = us := by
  have hLead : item.lead = item'.lead := by
    rcases item.exists_cons with ⟨t, rest, hTokens, hToken⟩
    rcases item'.exists_cons with ⟨t', rest', hTokens', hToken'⟩
    rw [hTokens, hTokens'] at h
    rw [← hToken, ← hToken', (List.cons.inj h).1]
  cases item with
  | comment t hComment =>
      cases item' with
      | comment t' hComment' =>
          rcases List.cons.inj h with ⟨rfl, rfl⟩
          exact ⟨rfl, rfl⟩
      | label => exact absurd hLead (by simp [lead])
      | command => exact absurd hLead (by simp [lead])
  | label name t colon hName hColon =>
      cases item' with
      | comment => exact absurd hLead (by simp [lead])
      | label name' t' colon' hName' hColon' =>
          obtain rfl : name = name' := by simpa [lead] using hLead
          rcases List.cons.inj h with ⟨rfl, hBehind⟩
          rcases List.cons.inj hBehind with ⟨rfl, rfl⟩
          exact ⟨rfl, rfl⟩
      | command => exact absurd hLead (by simp [lead])
  | command w =>
      cases item' with
      | comment => exact absurd hLead (by simp [lead])
      | label => exact absurd hLead (by simp [lead])
      | command w' =>
          rcases WrittenCommand.eq_of_tokens_append h with ⟨rfl, rfl⟩
          exact ⟨rfl, rfl⟩

private theorem flatMap_tokens_cons_ne_nil (item : Item) (items : List Item) :
    (item :: items).flatMap tokens ≠ [] := by
  rcases item.exists_cons with ⟨t, ts, hTokens, -⟩
  rw [List.flatMap_cons, hTokens]
  exact List.cons_ne_nil t _

/-- Tokens are a concatenation of items in at most one way. -/
theorem eq_of_flatMap_tokens {items items' : List Item}
    (h : items.flatMap tokens = items'.flatMap tokens) : items = items' := by
  induction items generalizing items' with
  | nil =>
      cases items' with
      | nil => rfl
      | cons item' items' => exact absurd h.symm (flatMap_tokens_cons_ne_nil item' items')
  | cons item items ih =>
      cases items' with
      | nil => exact absurd h (flatMap_tokens_cons_ne_nil item items)
      | cons item' items' =>
          rw [List.flatMap_cons, List.flatMap_cons] at h
          rcases eq_of_tokens_append h with ⟨rfl, hRest⟩
          rw [ih hRest]

end Item

/-! ## Reading items -/

/-- What is read as an instruction is an instruction as it is written. -/
theorem exists_written_of_form {c : Command} {e : Entry} {os : List Operand} {m : Mnemonic}
    (hForm : c.Form e os) (hMnemonic : c.mnemonic = .keyword (.mnemonic m)) :
    ∃ w : WrittenCommand, c = w.placed c.offset := by
  cases c with
  | mk mnemonic format tokens offset =>
      obtain rfl : mnemonic = .keyword (.mnemonic m) := hMnemonic
      obtain rfl : e.mnemonic = m := Option.some.inj hForm.mnemonic
      obtain rfl : e.format = format := hForm.format
      exact ⟨⟨e, os, tokens, hForm.mem, hForm.kinds, hForm.special, hForm.tokens⟩, rfl⟩

/-- What the reader accepts are items, and these are what its statements come from. -/
theorem exists_items_of_readStatements {stop : Nat} {offset : UInt16} {ts : List Located}
    {statements : List Statement} (hColoned : Coloned ts)
    (h : readStatements stop offset ts = .ok statements) :
    ∃ items : List Item, items.flatMap Item.tokens = ts ∧
      statements = statementsFrom offset items := by
  fun_induction readStatements stop offset ts generalizing statements with
  | case1 offset => exact ⟨[], rfl, (Except.ok.inj h).symm⟩
  | case2 offset t ts hComment ih =>
      rcases ih hColoned.2 h with ⟨items, rfl, rfl⟩
      exact ⟨.comment t hComment :: items, rfl, rfl⟩
  | case3 offset t ts name hName ih =>
      rcases exists_colon_of_coloned hColoned hName with ⟨colon, rest, rfl, hColon⟩
      have hSkip : skipColon (colon :: rest) = rest := if_pos hColon
      rw [hSkip] at ih h
      rcases exists_of_bind_eq_ok h with ⟨behind, hRest, h⟩
      obtain rfl := Except.ok.inj h
      rcases ih hColoned.2.2 hRest with ⟨items, rfl, rfl⟩
      exact ⟨.label name t colon hName hColon :: items, rfl, rfl⟩
  | case4 => exact absurd h (by simp)
  | case5 offset t ts m hMnemonic c ts' hRead ih =>
      rcases exists_of_bind_eq_ok h with ⟨behind, hRest, h⟩
      obtain rfl := Except.ok.inj h
      rcases (readCommand_eq_ok_iff hMnemonic).1 hRead with
        ⟨hName, rfl, hAppend, e, os, hForm⟩
      rcases exists_written_of_form hForm hName with ⟨w, hPlaced⟩
      rw [hAppend] at hColoned ⊢
      rcases ih (coloned_of_append hColoned) hRest with ⟨items, rfl, rfl⟩
      refine ⟨.command w :: items, ?_, ?_⟩
      · rw [hPlaced]
        rfl
      · rw [statementsFrom, ← hPlaced]
  | case6 => exact absurd h (by simp)

/-- Items are read as their statements. -/
theorem readStatements_flatMap_tokens (stop : Nat) (address : UInt16) (items : List Item) :
    readStatements stop address (items.flatMap Item.tokens) =
      .ok (statementsFrom address items) := by
  induction items generalizing address with
  | nil =>
      rw [List.flatMap_nil, readStatements]
      rfl
  | cons item items ih =>
      rw [List.flatMap_cons]
      cases item with
      | comment t hComment =>
          show readStatements stop address (t :: items.flatMap Item.tokens) = _
          rw [readStatements]
          simp only [hComment]
          exact ih address
      | label name t colon hName hColon =>
          show readStatements stop address (t :: colon :: items.flatMap Item.tokens) = _
          rw [readStatements]
          simp only [hName, skipColon, hColon, if_true, ih]
          rfl
      | command w =>
          rcases List.map_eq_cons_iff.1 w.written with ⟨t, ts, hTokens, hLead, -⟩
          have hRead : readCommand stop address (.keyword (.mnemonic w.entry.mnemonic)) t
              (ts ++ items.flatMap Item.tokens) =
                .ok (w.placed address, items.flatMap Item.tokens) := by
            refine (readCommand_eq_ok_iff hLead).2 ⟨rfl, rfl, ?_, _, _, w.form_placed address⟩
            rw [WrittenCommand.placed, hTokens, List.cons_append]
          show readStatements stop address (w.tokens ++ items.flatMap Item.tokens) = _
          rw [hTokens, List.cons_append, readStatements_of_readCommand hLead hRead, ih]
          rfl

/-- The reader accepts exactly the concatenations of items. -/
theorem readStatements_eq_ok_iff {stop : Nat} {offset : UInt16} {ts : List Located}
    {statements : List Statement} (hColoned : Coloned ts) :
    readStatements stop offset ts = .ok statements ↔
      ∃ items : List Item, items.flatMap Item.tokens = ts ∧
        statements = statementsFrom offset items := by
  constructor
  · exact exists_items_of_readStatements hColoned
  · intro hGiven
    rcases hGiven with ⟨items, rfl, rfl⟩
    exact readStatements_flatMap_tokens stop offset items

/-! ## Texts and their items -/

/-- The statements of a resolved text are those of its items. -/
theorem parse_eq_ok_iff {source : String} {stream : TokenStream} {statements : List Statement}
    (hResolve : resolve source = .ok stream) :
    parse source = .ok statements ↔
      ∃ items : List Item, items.flatMap Item.tokens = stream.tokens ∧
        statements = statementsFrom (UInt16.ofNat programStart) items := by
  rw [parse, hResolve]
  exact readStatements_eq_ok_iff (coloned_of_resolve hResolve)

private theorem laid_statementsFrom (address : UInt16) (items : List Item) :
    Laid address (statementsFrom address items) :=
  (laid_of_readStatements (readStatements_flatMap_tokens 0 address items)).1

/-- Every instruction among the statements is an item. -/
theorem exists_item_of_mem_commandsOf {address : UInt16} {items : List Item} {c : Command}
    (hc : c ∈ commandsOf (statementsFrom address items)) :
    ∃ w, .command w ∈ items ∧ c = w.placed c.offset := by
  induction items generalizing address with
  | nil => exact absurd hc List.not_mem_nil
  | cons item items ih =>
      cases item with
      | comment t hComment =>
          rcases ih hc with ⟨w, hw, hPlaced⟩
          exact ⟨w, List.mem_cons_of_mem _ hw, hPlaced⟩
      | label name t colon hName hColon =>
          rcases ih hc with ⟨w, hw, hPlaced⟩
          exact ⟨w, List.mem_cons_of_mem _ hw, hPlaced⟩
      | command w =>
          rcases List.mem_cons.1 hc with rfl | hc
          · exact ⟨w, List.mem_cons_self, rfl⟩
          · rcases ih hc with ⟨v, hv, hPlaced⟩
            exact ⟨v, List.mem_cons_of_mem _ hv, hPlaced⟩

/-- A label among the statements of items has its definition and the colon behind it
among their tokens. -/
theorem exists_getElem?_of_label_mem {address : UInt16} {items : List Item} {l : Label}
    {offset : UInt16} (hMem : Statement.label l offset ∈ statementsFrom address items) :
    ∃ k t colon, (items.flatMap Item.tokens)[k]? = some t ∧
      (items.flatMap Item.tokens)[k + 1]? = some colon ∧ t.token = .labelDef l.name ∧
        t.span.start = l.start ∧ colon.token = .colon := by
  induction items generalizing address with
  | nil => exact absurd hMem List.not_mem_nil
  | cons item items ih =>
      have hLater : ∀ address, Statement.label l offset ∈ statementsFrom address items →
          ∃ k t colon, ((item :: items).flatMap Item.tokens)[k]? = some t ∧
            ((item :: items).flatMap Item.tokens)[k + 1]? = some colon ∧
              t.token = .labelDef l.name ∧ t.span.start = l.start ∧ colon.token = .colon := by
        intro address hBehind
        rcases ih hBehind with ⟨k, t, colon, hHere, hNext, hLabel⟩
        refine ⟨item.tokens.length + k, t, colon, ?_, ?_, hLabel⟩
        · rw [List.flatMap_cons, List.getElem?_append_right (by omega), Nat.add_sub_cancel_left]
          exact hHere
        · rw [List.flatMap_cons, List.getElem?_append_right (by omega), Nat.add_assoc,
            Nat.add_sub_cancel_left]
          exact hNext
      cases item with
      | comment t hComment => exact hLater _ hMem
      | label name t colon hName hColon =>
          rcases List.mem_cons.1 hMem with hHere | hBehind
          · rcases Statement.label.inj hHere with ⟨rfl, -⟩
            exact ⟨0, t, colon, rfl, rfl, hName, rfl, hColon⟩
          · exact hLater _ hBehind
      | command w =>
          rcases List.mem_cons.1 hMem with hHere | hBehind
          · cases hHere
          · exact hLater _ hBehind

/-- A text without illegal characters is read if and only if its tokens are a
concatenation of items. They are so in one way only, and the statements are the items
without the comments. Each instruction has the tokens of its own item, as many as its
format says, and the format of the only entry that it can be; the `k`-th one lies
`2 *
k` bytes behind the start of a program, modulo `2^16`. -/
theorem parse_reads_items (source : String)
    (hLegal : ∀ t ∈ (scan source).tokens, t.token.illegal? = none) :
    ∃ stream, resolve source = .ok stream ∧
      ((∃ statements, parse source = .ok statements) ↔
        ∃ items : List Item, items.flatMap Item.tokens = stream.tokens) ∧
      ∀ statements, parse source = .ok statements → ∃ items : List Item,
        items.flatMap Item.tokens = stream.tokens ∧
        (∀ items' : List Item, items'.flatMap Item.tokens = stream.tokens → items' = items) ∧
        statements = statementsFrom (UInt16.ofNat programStart) items ∧
        ∀ k c, (commandsOf statements)[k]? = some c →
          c.offset.toNat = (programStart + 2 * k) % 65536 ∧
          c.tokens.length = c.format.tokenCount ∧
          ∃ w : WrittenCommand, .command w ∈ items ∧ c = w.placed c.offset ∧
            ∀ e ∈ opcodeTable, e.mnemonic = w.entry.mnemonic →
              e.format.operands = w.operands.map (·.shape.kind) →
                e.special = Operand.special? w.operands → e = w.entry := by
  have hResolve := resolve_of_legal hLegal
  refine ⟨_, hResolve, ?_, ?_⟩
  · constructor
    · intro hRead
      rcases hRead with ⟨statements, hRead⟩
      rcases (parse_eq_ok_iff hResolve).1 hRead with ⟨items, hTokens, -⟩
      exact ⟨items, hTokens⟩
    · intro hItems
      rcases hItems with ⟨items, hTokens⟩
      exact ⟨_, (parse_eq_ok_iff hResolve).2 ⟨items, hTokens, rfl⟩⟩
  · intro statements hRead
    rcases (parse_eq_ok_iff hResolve).1 hRead with ⟨items, hTokens, rfl⟩
    refine ⟨items, hTokens, ?_, rfl, ?_⟩
    · intro items' hTokens'
      exact Item.eq_of_flatMap_tokens (hTokens'.trans hTokens.symm)
    · intro k c hc
      rcases exists_item_of_mem_commandsOf (List.mem_of_getElem? hc) with ⟨w, hw, hPlaced⟩
      have hLength : c.tokens.length = c.format.tokenCount := by
        rw [hPlaced]
        exact w.length_tokens
      refine ⟨toNat_offset_mod_of_laid (laid_statementsFrom _ items) hc, hLength, w, hw,
        hPlaced, ?_⟩
      intro e hMem hMnemonic hKinds hSpecial
      exact w.eq_entry hMem hMnemonic hKinds hSpecial

/-- A loop with a comment, a label, a special register and a jump back. -/
def waitingLoop : String := "# wait\nwait: mov reg[1], delay\nsneq reg[1], 0\njmp wait"

theorem parse_reads_items_waiting :
    (∀ t ∈ (scan waitingLoop).tokens, t.token.illegal? = none) ∧
      ∃ items : List Item,
        parse waitingLoop = .ok (statementsFrom (UInt16.ofNat programStart) items) ∧
        (commandsOf (statementsFrom (UInt16.ofNat programStart) items)).length = 3 := by
  have hLegal : ∀ t ∈ (scan waitingLoop).tokens, t.token.illegal? = none := by decide +kernel
  have hCount : (parse waitingLoop).toOption.map
      (fun statements => (commandsOf statements).length) = some 3 := by decide +kernel
  cases hParse : parse waitingLoop with
  | error e => simp [hParse, Except.toOption] at hCount
  | ok statements =>
      rcases parse_reads_items waitingLoop hLegal with ⟨stream, -, -, hAll⟩
      rcases hAll statements hParse with ⟨items, -, -, rfl, -⟩
      refine ⟨hLegal, items, rfl, ?_⟩
      simpa [hParse, Except.toOption] using hCount

end Asm

end Chip8

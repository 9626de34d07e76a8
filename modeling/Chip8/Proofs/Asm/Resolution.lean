import Chip8.Asm.SymbolTable
import Chip8.Proofs.Asm.Literal
import Chip8.Proofs.Asm.Operand
import Chip8.Proofs.Rows

/-!
# Resolving labels

An operand stands for a number: a literal for what it denotes, a label for its address.
The assembler gets to the number of a label in a roundabout way: it writes the address
in base ten in place of the label, and reads it again with the other numbers.

## Main definitions

* `Operand.number?`, `Operand.Fits` — the number of an operand, and whether its field
  holds it.
* `SymbolTable.addressOf?` — the addresses of a table as numbers.

## Main results

* `resolve_eq_ok_iff` — an instruction is resolved token by token.
* `exists_resolve` — it is resolved if its operands have numbers.
* `readValue_of_resolveToken` — a resolved operand is read as its number.
-/

namespace Chip8.Asm

/-! ## Operands as numbers -/

namespace Operand

/-- The number that an operand puts into the instruction word. A special register is
told by the entry alone and puts nothing there. -/
def number? (labels : String → Option Nat) : Operand → Option Nat
  | register l => l.token.number?
  | special _ => some 0
  | number l => l.token.number?
  | label name => labels name

/-- The width of the field of an operand, where a value has `low` bits. -/
def bits (low : Nat) : Operand → Nat
  | register _ => 4
  | special _ => 0
  | number _ => low
  | label _ => low

/-- The field of the operand can hold its number. -/
def Fits (labels : String → Option Nat) (f : Format) (o : Operand) : Prop :=
  ∃ n, o.number? labels = some n ∧ n < fieldSize (o.bits (f.valueBits.getD 0))

/-- The token that tells the value of an operand. -/
def telling : Operand → Token
  | register l => l.token
  | special s => .ident (.keyword (.special s))
  | number l => l.token
  | label name => .labelRef name

end Operand

/-! ## Resolving labels -/

namespace SymbolTable

/-- The addresses of a table as numbers. -/
def addressOf? (table : SymbolTable) (name : String) : Option Nat :=
  (table.address? name).map UInt16.toNat

theorem resolve_eq_ok_iff {table : SymbolTable} {c c' : Command} :
    table.resolve c = .ok c' ↔
      ∃ ts, List.Forall₂ (fun t t' => table.resolveToken t = .ok t') c.tokens ts ∧
        { c with tokens := ts } = c' := by
  rw [resolve]
  constructor
  · intro h
    obtain ⟨ts, hts, h⟩ := exists_of_bind_eq_ok h
    exact ⟨ts, mapM_eq_ok_iff.1 hts, Except.ok.inj h⟩
  · intro hGiven
    rcases hGiven with ⟨ts, hts, rfl⟩
    rw [mapM_eq_ok_iff.2 hts]
    rfl

/-- Tokens keep their places when they are resolved. -/
theorem exists_getElem?_of_resolve {table : SymbolTable} {c c' : Command}
    (hResolved : table.resolve c = .ok c') {k : Nat} {t : Located} (ht : c.tokens[k]? = some t) :
    ∃ t', c'.tokens[k]? = some t' ∧ table.resolveToken t = .ok t' := by
  obtain ⟨ts, hts, rfl⟩ := resolve_eq_ok_iff.1 hResolved
  obtain ⟨hk, rfl⟩ := List.getElem?_eq_some_iff.1 ht
  have hk' : k < ts.length := hts.length_eq ▸ hk
  exact ⟨_, List.getElem?_eq_getElem hk', hts.get hk hk'⟩

/-- A token that is no reference to a label stays. -/
theorem resolveToken_of_number {table : SymbolTable} {t : Located} {l : Literal}
    (ht : t.token = l.token) : table.resolveToken t = .ok t := by
  cases l <;> simp [resolveToken, ht, Literal.token]

/-- A reference is resolved exactly if the table has the label. -/
theorem resolveToken_of_labelRef {table : SymbolTable} {t t' : Located} {name : String}
    (ht : t.token = .labelRef name) :
    table.resolveToken t = .ok t' ↔ ∃ address, table.address? name = some address ∧
      t' = { t with token := .decimal (Text.decimal address.toNat) } := by
  rw [resolveToken, ht]
  dsimp only
  cases table.address? name with
  | none => simp
  | some address => simp [eq_comm]

/-- Resolving a token makes no other special register of it. -/
theorem special?_of_resolveToken {table : SymbolTable} {t t' : Located}
    (h : table.resolveToken t = .ok t') : t'.token.special? = t.token.special? := by
  unfold resolveToken at h
  split at h
  · rename_i name hName
    split at h
    · obtain rfl := Except.ok.inj h
      simp [Token.special?, hName]
    · simp at h
  · obtain rfl := Except.ok.inj h
    rfl

/-- Resolving labels does not change the special register of an instruction. -/
theorem special?_of_resolve {table : SymbolTable} {c c' : Command}
    (hResolved : table.resolve c = .ok c') : c'.special? = c.special? := by
  rcases resolve_eq_ok_iff.1 hResolved with ⟨ts, hts, rfl⟩
  have hSame : ∀ (us vs : List Located),
      List.Forall₂ (fun t t' => table.resolveToken t = .ok t') us vs →
        vs.findSome? (·.token.special?) = us.findSome? (·.token.special?) := by
    intro us vs h
    induction h with
    | nil => rfl
    | cons hHead _ ih =>
        simp only [List.findSome?_cons, special?_of_resolveToken hHead, ih]
  exact hSame c.tokens ts hts

/-- An instruction is resolved if the table has its labels. -/
theorem exists_resolve_of_labels {table : SymbolTable} {c : Command}
    (hLabels : ∀ t ∈ c.tokens, ∀ name, t.token = .labelRef name →
      ∃ address, table.address? name = some address) : ∃ c', table.resolve c = .ok c' := by
  have hTokens : ∀ t ∈ c.tokens, ∃ t', table.resolveToken t = .ok t' := by
    intro t ht
    cases hName : t.token with
    | labelRef name =>
        rcases hLabels t ht name hName with ⟨address, hAddress⟩
        exact ⟨_, (resolveToken_of_labelRef hName).2 ⟨address, hAddress, rfl⟩⟩
    | _ => exact ⟨t, by simp [resolveToken, hName]⟩
  rcases exists_mapM_eq_ok_iff.2 hTokens with ⟨ts, hts⟩
  exact ⟨_, resolve_eq_ok_iff.2 ⟨ts, mapM_eq_ok_iff.1 hts, rfl⟩⟩

end SymbolTable

/-- The special register of an instruction is the same among its tokens as among its
operands. -/
theorem Command.Form.special?_eq {c : Command} {e : Entry} {os : List Operand}
    (hForm : c.Form e os) : c.special? = Operand.special? os := by
  have hRow : c.special? = (c.tokens.map (·.token)).findSome? Token.special? := by
    rw [Command.special?, List.findSome?_map]
    rfl
  have hTail : ∀ os, (Operand.tail os).findSome? Token.special? = Operand.special? os := by
    intro os
    induction os with
    | nil => rfl
    | cons o os ih =>
        rw [Operand.tail_cons, List.findSome?_cons, List.findSome?_append, ih]
        cases o with
        | register l => cases l <;> rfl
        | special s => rfl
        | number l => cases l <;> rfl
        | label name => rfl
  have hMnemonic : (Token.ident c.mnemonic).special? = none := by
    have hm := hForm.mnemonic
    cases hc : c.mnemonic with
    | unknown name => rfl
    | keyword k => cases k <;> simp_all [Ident.mnemonic?, Token.special?, Ident.special?]
  rw [hRow, hForm.tokens, List.findSome?_cons, hMnemonic]
  cases os with
  | nil => rfl
  | cons o os => exact (hTail (o :: os)) ▸ by rw [Operand.tail_cons, List.findSome?_cons]; rfl

theorem special?_of_form {c c' : Command} {e : Entry} {os : List Operand} (hForm : c.Form e os)
    {table : SymbolTable} (hResolved : table.resolve c = .ok c') :
    c'.special? = Operand.special? os :=
  (SymbolTable.special?_of_resolve hResolved).trans hForm.special?_eq

/-! ## Operands that are resolved -/

/-- A reference among the tokens of operands is an operand. -/
theorem label_mem_of_labelRef_mem {name : String} {os : List Operand}
    (h : Token.labelRef name ∈ Operand.row os) : Operand.label name ∈ os := by
  rcases Operand.eq_comma_or_exists_of_mem_row h with hComma | ⟨o, ho, hMem⟩
  · simp at hComma
  · have hLabel : o = .label name := by
      cases o with
      | register l => cases l <;> simp [Operand.tokens, Literal.token] at hMem
      | special s => simp [Operand.tokens] at hMem
      | number l => cases l <;> simp [Operand.tokens, Literal.token] at hMem
      | label other => simp_all [Operand.tokens]
    exact hLabel ▸ ho

/-- Labels are resolved if the operands fit. -/
theorem exists_resolve {c : Command} {e : Entry} {os : List Operand} (hForm : c.Form e os)
    {table : SymbolTable} (hFit : ∀ o ∈ os, o.Fits table.addressOf? e.format) :
    ∃ c', table.resolve c = .ok c' := by
  refine SymbolTable.exists_resolve_of_labels fun t ht name hName => ?_
  have hMem : Token.labelRef name ∈ Operand.row os := by
    have hMap := List.mem_map_of_mem (f := fun t : Located => t.token) ht
    rw [hForm.tokens, hName] at hMap
    simpa using hMap
  rcases hFit _ (label_mem_of_labelRef_mem hMem) with ⟨n, hn, -⟩
  rcases Option.map_eq_some_iff.1 hn with ⟨address, hAddress, -⟩
  exact ⟨address, hAddress⟩

/-- A resolved operand is read as the value of a field exactly if it stands for that
value. -/
theorem readValue_of_resolveToken {table : SymbolTable} {t t' : Located} {o : Operand}
    (ht : t.token = o.telling) (hUnsigned : t.token.Unsigned)
    (hResolved : table.resolveToken t = .ok t') (hKind : o.shape.kind ≠ .special) {bits : Nat}
    {f : Field bits} :
    readValue bits t' = .ok f ↔ o.number? table.addressOf? = some f.value.toNat := by
  have hLiteral : ∀ l : Literal, t.token = l.token →
      (readValue bits t' = .ok f ↔ l.token.number? = some f.value.toNat) := by
    intro l hl
    rw [SymbolTable.resolveToken_of_number hl] at hResolved
    obtain rfl := Except.ok.inj hResolved
    rw [readValue_eq_ok_iff hUnsigned, hl]
  cases o with
  | register l => exact hLiteral l ht
  | special s => exact absurd rfl hKind
  | number l => exact hLiteral l ht
  | label name =>
      obtain ⟨address, hAddress, rfl⟩ := (SymbolTable.resolveToken_of_labelRef ht).1 hResolved
      have hDigits : Text.numberOf? 10 (Text.decimal address.toNat).toList =
          some address.toNat := by
        simpa [Text.decimal] using Text.numberOf?_numeral (by omega) (by omega) address.toNat_lt 0
      have hPlus : (Token.decimal (Text.decimal address.toNat)).Unsigned :=
        Text.plus_notMem_of_numberOf? hDigits
      rw [readValue_eq_ok_iff hPlus]
      simp only [Token.number?, hDigits, Operand.number?, SymbolTable.addressOf?, hAddress,
        Option.map_some]

end Chip8.Asm

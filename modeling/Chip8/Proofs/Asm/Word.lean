import Chip8.Asm.Encoding
import Chip8.Proofs.Asm.Resolution

/-!
# The word of an instruction

The instruction word is the base of the entry with the numbers of the operands in their
fields. The assembler looks the operands up by their places among the tokens. The places
come from the format and the tokens from the operands. That the two fit together is one
induction over the operands (`forall₂_fieldsFrom`), for rows of any length.

## Main definitions

* `assembledWord` — the word of an instruction as it is written.

## Main results

* `exists_encode_iff` — an instruction is encoded exactly if its operands fit.
* `toNat_of_encode` — and then in that word.
* `encodeFrom_eq_ok_iff` — a program is encoded instruction by instruction.
-/

namespace Chip8.Asm

namespace Operand

/-- The number of a register in brackets. -/
def register? : Operand → Option Nat
  | register l => l.token.number?
  | _ => none

/-- The number of a value. -/
def value? (labels : String → Option Nat) : Operand → Option Nat
  | number l => l.token.number?
  | label name => labels name
  | _ => none

/-- The numbers of the registers among operands. -/
def registerNumbers (os : List Operand) : List Nat := os.filterMap register?

/-- The numbers of the values among operands. -/
def valueNumbers (labels : String → Option Nat) (os : List Operand) : List Nat :=
  os.filterMap (value? labels)

private theorem getElem?_tokens_append (o : Operand) (ts : List Token) :
    (o.tokens ++ ts)[o.shape.kind.lead]? = some o.telling := by
  cases o <;> rfl

theorem length_tokens (o : Operand) : o.tokens.length = o.shape.kind.width := by
  cases o <;> rfl

end Operand

/-- The word of an instruction as it is written: the base of the entry, the first
register in the bits from 8 on, the second in those from 4 on, and a value in the lowest
bits. -/
def assembledWord (labels : String → Option Nat) (e : Entry) (os : List Operand) : Nat :=
  e.base.toNat ||| (Operand.registerNumbers os).getD 0 0 <<< 8 |||
    (Operand.registerNumbers os).getD 1 0 <<< 4 ||| (Operand.valueNumbers labels os).getD 0 0

/-! ## Fields and tokens -/

/-- The places that the kinds of operands ask for are those at which the operands are
written, whatever stands in front of them. -/
theorem forall₂_fieldsFrom (low shift : Nat) (os : List Operand) (front : List Token) :
    List.Forall₂
      (fun fld o => fld.kind = o.shape.kind ∧ fld.bits = o.bits low ∧
        (front ++ Operand.row os)[fld.position]? = some o.telling)
      (Format.fieldsFrom low shift
        (Format.positionsFrom front.length (os.map (·.shape.kind)))) os := by
  -- What was passed goes into `front`, so that places are counted from the first token on.
  induction os generalizing shift front with
  | nil => exact List.Forall₂.nil
  | cons o os ih =>
      have hHead : (front ++ Operand.row (o :: os))[front.length + o.shape.kind.lead]? =
          some o.telling := by
        rw [List.getElem?_append_right (Nat.le_add_right _ _), Nat.add_sub_cancel_left]
        exact o.getElem?_tokens_append (Operand.tail os)
      have hRest : ∀ shift', List.Forall₂
          (fun fld o' => fld.kind = o'.shape.kind ∧ fld.bits = o'.bits low ∧
            (front ++ Operand.row (o :: os))[fld.position]? = some o'.telling)
          (Format.fieldsFrom low shift' (Format.positionsFrom
            (front.length + o.shape.kind.width + 1) (os.map (·.shape.kind)))) os := by
        intro shift'
        cases os with
        | nil => exact List.Forall₂.nil
        | cons o' os =>
            have hRow : front ++ Operand.row (o :: o' :: os) =
                (front ++ o.tokens ++ [Token.comma]) ++ Operand.row (o' :: os) := by
              simp [Operand.row, Operand.tail_cons]
            have hLength : front.length + o.shape.kind.width + 1 =
                (front ++ o.tokens ++ [Token.comma]).length := by
              simp [o.length_tokens, Nat.add_assoc]
            rw [hRow, hLength]
            exact ih shift' (front ++ o.tokens ++ [Token.comma])
      cases o with
      | register l => exact List.Forall₂.cons ⟨rfl, rfl, hHead⟩ (hRest (shift - 4))
      | special s => exact List.Forall₂.cons ⟨rfl, rfl, hHead⟩ (hRest shift)
      | number l => exact List.Forall₂.cons ⟨rfl, rfl, hHead⟩ (hRest shift)
      | label name => exact List.Forall₂.cons ⟨rfl, rfl, hHead⟩ (hRest shift)

/-- Every field lies in the word. -/
theorem bits_add_shift_le (f : Format) : ∀ fld ∈ f.fields, fld.bits + fld.shift ≤ 16 := by
  cases f <;> decide

/-! ## Encoding one operand -/

/-- A value in a field of the word is a plain multiple. -/
theorem toNat_shiftLeft_of_fits {bits shift : Nat} (hField : bits + shift ≤ 16) (f : Field bits) :
    (f.value <<< UInt16.ofNat shift).toNat = f.value.toNat <<< shift := by
  have hFits := f.fits
  rw [fieldSize_eq] at hFits
  have hSmall : f.value.toNat * 2 ^ shift < 65536 := by
    calc f.value.toNat * 2 ^ shift < 2 ^ bits * 2 ^ shift :=
          Nat.mul_lt_mul_of_pos_right hFits (Nat.two_pow_pos shift)
      _ = 2 ^ (bits + shift) := (Nat.pow_add 2 bits shift).symm
      _ ≤ 2 ^ 16 := Nat.pow_le_pow_right (by omega) hField
      _ = 65536 := rfl
  by_cases hLt : shift < 16
  · rw [UInt16.toNat_shiftLeft, UInt16.toNat_ofNat', Nat.mod_eq_of_lt (by omega : shift < 65536),
      Nat.mod_eq_of_lt hLt, Nat.shiftLeft_eq, Nat.mod_eq_of_lt hSmall]
  · obtain ⟨rfl, rfl⟩ : bits = 0 ∧ shift = 16 := by omega
    have hZero : f.value.toNat = 0 := by
      simp only [Nat.pow_zero] at hFits
      omega
    obtain hValue : f.value = 0 := UInt16.toNat_inj.1 hZero
    rw [hValue]
    rfl

/-- A number that fits is the value of a field. -/
theorem exists_field {bits n : Nat} (hBits : bits ≤ 16) (hn : n < fieldSize bits) :
    ∃ f : Field bits, f.value.toNat = n := by
  have hLe := fieldSize_le hBits
  have h16 : fieldSize 16 = 65536 := rfl
  have hValue : (UInt16.ofNat n).toNat = n := by
    rw [UInt16.toNat_ofNat', Nat.mod_eq_of_lt (by omega)]
  exact ⟨⟨UInt16.ofNat n, by rw [hValue]; exact hn⟩, hValue⟩

/-- An operand is encoded as the value of its field, in its place. -/
theorem encodeField_eq_ok_iff {c : Command} {table : SymbolTable} {fld : OperandField}
    {o : Operand} {t t' : Located} (hKind : fld.kind = o.shape.kind)
    (ht' : c.tokens[fld.position]? = some t') (hResolved : table.resolveToken t = .ok t')
    (ht : t.token = o.telling) (hUnsigned : t.token.Unsigned)
    (hSpecial : o.shape.kind ≠ .special) {w : UInt16} :
    c.encodeField fld = .ok w ↔
      ∃ f : Field fld.bits, o.number? table.addressOf? = some f.value.toNat ∧
        f.value <<< UInt16.ofNat fld.shift = w := by
  have hEncoded : c.encodeField fld =
      (do let value ← readValue fld.bits t'; return value.value <<< UInt16.ofNat fld.shift) := by
    simp only [Command.encodeField, ht']
    split
    · rename_i h
      exact absurd (hKind.symm.trans h) hSpecial
    · rfl
  rw [hEncoded]
  constructor
  · intro h
    obtain ⟨f, hf, h⟩ := exists_of_bind_eq_ok h
    exact ⟨f, (readValue_of_resolveToken ht hUnsigned hResolved hSpecial).1 hf, Except.ok.inj h⟩
  · intro hGiven
    rcases hGiven with ⟨f, hf, rfl⟩
    rw [(readValue_of_resolveToken ht hUnsigned hResolved hSpecial).2 hf]
    rfl

/-- An operand is encoded exactly if its number fits, and then as that number in its
place. -/
theorem encodeField_spec {c : Command} {table : SymbolTable} {fld : OperandField} {o : Operand}
    {low : Nat} {t t' : Located} (hKind : fld.kind = o.shape.kind)
    (hBits : fld.bits = o.bits low) (hField : fld.bits + fld.shift ≤ 16)
    (ht' : c.tokens[fld.position]? = some t') (hResolved : table.resolveToken t = .ok t')
    (ht : t.token = o.telling) (hUnsigned : t.token.Unsigned) :
    ((∃ w, c.encodeField fld = .ok w) ↔
      ∃ n, o.number? table.addressOf? = some n ∧ n < fieldSize (o.bits low)) ∧
    ∀ w, c.encodeField fld = .ok w →
      w.toNat = (o.number? table.addressOf?).getD 0 <<< fld.shift := by
  by_cases hSpecial : o.shape.kind = .special
  · obtain ⟨s, rfl⟩ : ∃ s, o = .special s := by
      cases o <;> simp_all [Operand.shape]
    have hEncoded : c.encodeField fld = .ok 0 := by
      simp [Command.encodeField, ht', hKind, hSpecial]
    rw [hEncoded]
    refine ⟨⟨fun _ => ⟨0, rfl, fieldSize_pos 0⟩, fun _ => ⟨0, rfl⟩⟩, ?_⟩
    intro w hw
    obtain rfl := Except.ok.inj hw
    simp [Operand.number?]
  · have hIff := fun {w : UInt16} =>
      encodeField_eq_ok_iff hKind ht' hResolved ht hUnsigned hSpecial (w := w)
    constructor
    · constructor
      · intro hGiven
        rcases hGiven with ⟨w, hw⟩
        obtain ⟨f, hf, -⟩ := hIff.1 hw
        exact ⟨f.value.toNat, hf, hBits ▸ f.fits⟩
      · intro hGiven
        rcases hGiven with ⟨n, hn, hLt⟩
        obtain ⟨f, hf⟩ := exists_field (by omega : fld.bits ≤ 16) (hBits ▸ hLt)
        exact ⟨_, hIff.2 ⟨f, hf ▸ hn, rfl⟩⟩
    · intro w hw
      obtain ⟨f, hf, rfl⟩ := hIff.1 hw
      rw [hf, Option.getD_some, toNat_shiftLeft_of_fits hField]

/-! ## Encoding a row of operands -/

/-- The numbers of operands in their fields, taken together. -/
def packed (labels : String → Option Nat) : List OperandField → List Operand → Nat
  | fld :: flds, o :: os => (o.number? labels).getD 0 <<< fld.shift ||| packed labels flds os
  | _, _ => 0

/-- A row of operands is encoded exactly if each of them fits. -/
theorem encodeFields_spec {c c' : Command} {table : SymbolTable} {low : Nat}
    (hResolved : table.resolve c = .ok c') (hUnsigned : ∀ t ∈ c.tokens, t.token.Unsigned)
    {flds : List OperandField} {os : List Operand}
    (hAligned : List.Forall₂ (fun fld o => fld.kind = o.shape.kind ∧ fld.bits = o.bits low ∧
      (c.tokens.map (·.token))[fld.position]? = some o.telling) flds os)
    (hFields : ∀ fld ∈ flds, fld.bits + fld.shift ≤ 16) :
    ((∃ w, c'.encodeFields flds = .ok w) ↔
      ∀ o ∈ os, ∃ n, o.number? table.addressOf? = some n ∧ n < fieldSize (o.bits low)) ∧
    ∀ w, c'.encodeFields flds = .ok w → w.toNat = packed table.addressOf? flds os := by
  induction hAligned with
  | nil =>
      refine ⟨⟨fun _ => by simp, fun _ => ⟨0, rfl⟩⟩, ?_⟩
      intro w hw
      obtain rfl := Except.ok.inj hw
      rfl
  | @cons fld o flds os hHead _ ih =>
      obtain ⟨hKind, hBits, hTelling⟩ := hHead
      rw [List.forall_mem_cons] at hFields
      obtain ⟨hExists, hValue⟩ := ih hFields.2
      rw [List.getElem?_map, Option.map_eq_some_iff] at hTelling
      obtain ⟨t, hGet, ht⟩ := hTelling
      obtain ⟨t', hGet', ht'⟩ := SymbolTable.exists_getElem?_of_resolve hResolved hGet
      obtain ⟨hOne, hOneValue⟩ := encodeField_spec hKind hBits hFields.1 hGet' ht' ht
        (hUnsigned t (List.mem_of_getElem? hGet))
      rw [List.forall_mem_cons, ← hOne, ← hExists]
      constructor
      · constructor
        · intro hGiven
          rcases hGiven with ⟨w, h⟩
          obtain ⟨first, hFirst, h⟩ := exists_of_bind_eq_ok h
          obtain ⟨others, hOthers, -⟩ := exists_of_bind_eq_ok h
          exact ⟨⟨first, hFirst⟩, others, hOthers⟩
        · intro hGiven
          rcases hGiven with ⟨⟨first, hFirst⟩, others, hOthers⟩
          refine ⟨first ||| others, ?_⟩
          rw [Command.encodeFields, hFirst, hOthers]
          rfl
      · intro w h
        obtain ⟨first, hFirst, h⟩ := exists_of_bind_eq_ok h
        obtain ⟨others, hOthers, h⟩ := exists_of_bind_eq_ok h
        obtain rfl := Except.ok.inj h
        rw [packed, UInt16.toNat_or, hOneValue first hFirst, hValue others hOthers]

/-- Registers in fields of four bits, from a bit on downwards. -/
def packedRegisters : Nat → List Nat → Nat
  | _, [] => 0
  | shift, n :: ns => n <<< shift ||| packedRegisters (shift - 4) ns

/-- Registers are packed from the top, in the order in which they are written, and
values at the bottom; where the operands stand among the tokens does not matter. -/
theorem packed_fieldsFrom {labels : String → Option Nat} (low shift start : Nat)
    {os : List Operand} (hNumber : ∀ o ∈ os, ∃ n, o.number? labels = some n) :
    packed labels
        (Format.fieldsFrom low shift (Format.positionsFrom start (os.map (·.shape.kind)))) os =
      packedRegisters shift (Operand.registerNumbers os) |||
        (Operand.valueNumbers labels os).foldr (· ||| ·) 0 := by
  induction os generalizing shift start with
  | nil => simp [packed, packedRegisters, Operand.registerNumbers, Operand.valueNumbers]
  | cons o os ih =>
      rw [List.forall_mem_cons] at hNumber
      obtain ⟨⟨n, hn⟩, hRest⟩ := hNumber
      have hValue : o.value? labels = some n → o.register? = none →
          n ||| (packedRegisters shift (Operand.registerNumbers os) |||
              (Operand.valueNumbers labels os).foldr (· ||| ·) 0) =
            packedRegisters shift (Operand.registerNumbers (o :: os)) |||
              (Operand.valueNumbers labels (o :: os)).foldr (· ||| ·) 0 := by
        intro hv hr
        have hRegisters : Operand.registerNumbers (o :: os) = Operand.registerNumbers os :=
          List.filterMap_cons_none hr
        have hValues : Operand.valueNumbers labels (o :: os) =
            n :: Operand.valueNumbers labels os := List.filterMap_cons_some hv
        rw [hRegisters, hValues, List.foldr_cons, ← Nat.or_assoc, Nat.or_comm n, Nat.or_assoc]
      cases o with
      | register l =>
          have hRegisters : Operand.registerNumbers (.register l :: os) =
              n :: Operand.registerNumbers os := List.filterMap_cons_some hn
          show ((Operand.register l).number? labels).getD 0 <<< shift ||| packed labels _ os = _
          rw [ih _ _ hRest, hn, hRegisters, packedRegisters, Nat.or_assoc]
          rfl
      | special s =>
          show 0 <<< 0 ||| packed labels _ os = _
          rw [ih _ _ hRest, Nat.zero_shiftLeft, Nat.zero_or]
          rfl
      | number l =>
          show ((Operand.number l).number? labels).getD 0 <<< 0 ||| packed labels _ os = _
          rw [ih _ _ hRest, hn]
          exact hValue hn rfl
      | label name =>
          show ((Operand.label name).number? labels).getD 0 <<< 0 ||| packed labels _ os = _
          rw [ih _ _ hRest, hn]
          exact hValue hn rfl

theorem length_registerNumbers_le (os : List Operand) :
    (Operand.registerNumbers os).length ≤ (os.map (·.shape.kind)).count .register := by
  rw [Operand.registerNumbers, List.length_filterMap_eq_countP, List.count, List.countP_map]
  apply List.countP_mono_left
  intro o _ ho
  cases o <;> simp_all [Operand.register?, Operand.shape]

private theorem length_valueNumbers_le (labels : String → Option Nat) (os : List Operand) :
    (Operand.valueNumbers labels os).length ≤ (os.map (·.shape.kind)).count .value := by
  rw [Operand.valueNumbers, List.length_filterMap_eq_countP, List.count, List.countP_map]
  apply List.countP_mono_left
  intro o _ ho
  cases o <;> simp_all [Operand.value?, Operand.shape]

/-- The operands of a format are at most two registers, whose numbers come to lie in the
bits from 8 and from 4 on, and at most one value, which takes the lowest bits. -/
theorem packed_fields {labels : String → Option Nat} {f : Format} {os : List Operand}
    (hKinds : f.operands = os.map (·.shape.kind)) (hFit : ∀ o ∈ os, o.Fits labels f) :
    packed labels f.fields os =
      (Operand.registerNumbers os).getD 0 0 <<< 8 |||
        (Operand.registerNumbers os).getD 1 0 <<< 4 |||
          (Operand.valueNumbers labels os).getD 0 0 := by
  have hRegisters : (Operand.registerNumbers os).length ≤ 2 := by
    have hTable : ∀ f : Format, f.operands.count .register ≤ 2 := by
      intro f
      cases f <;> decide
    exact Nat.le_trans (length_registerNumbers_le os) (hKinds ▸ hTable f)
  have hValues : (Operand.valueNumbers labels os).length ≤ 1 := by
    have hTable : ∀ f : Format, f.operands.count .value ≤ 1 := by
      intro f
      cases f <;> decide
    exact Nat.le_trans (length_valueNumbers_le labels os) (hKinds ▸ hTable f)
  rw [Format.fields, Format.operandPositions, hKinds,
    packed_fieldsFrom _ 8 1 fun o ho => (hFit o ho).imp fun n hn => hn.1]
  have hLeft : packedRegisters 8 (Operand.registerNumbers os) =
      (Operand.registerNumbers os).getD 0 0 <<< 8 |||
        (Operand.registerNumbers os).getD 1 0 <<< 4 := by
    match Operand.registerNumbers os, hRegisters with
    | [], _ => rfl
    | [a], _ => simp [packedRegisters]
    | [a, b], _ => simp [packedRegisters]
  have hRight : (Operand.valueNumbers labels os).foldr (· ||| ·) 0 =
      (Operand.valueNumbers labels os).getD 0 0 := by
    match Operand.valueNumbers labels os, hValues with
    | [], _ => rfl
    | [v], _ => simp
  rw [hLeft, hRight]

/-! ## Encoding an instruction -/

/-- Encoding an instruction is encoding its operands, the entry being the one that was
read. -/
theorem encode_eq {c c' : Command} {e : Entry} {os : List Operand} (hForm : c.Form e os)
    {table : SymbolTable} (hResolved : table.resolve c = .ok c') :
    c'.encode =
      (do let operands ← c'.encodeFields e.format.fields; return e.base ||| operands) := by
  have hSpecial := special?_of_form hForm hResolved
  obtain ⟨ts, -, rfl⟩ := SymbolTable.resolve_eq_ok_iff.1 hResolved
  have hLookup : Entry.lookup? c.mnemonic c.format (Operand.special? os) = some e :=
    Entry.lookup?_eq_some_iff.2 ⟨hForm.mem, hForm.mnemonic, hForm.format, hForm.special⟩
  rw [Command.encode, hSpecial]
  dsimp only
  rw [hLookup, hForm.format]

theorem aligned_of_form {c : Command} {e : Entry} {os : List Operand} (hForm : c.Form e os) :
    List.Forall₂ (fun fld o => fld.kind = o.shape.kind ∧
      fld.bits = o.bits (e.format.valueBits.getD 0) ∧
        (c.tokens.map (·.token))[fld.position]? = some o.telling) e.format.fields os := by
  rw [Format.fields, Format.operandPositions, hForm.kinds, hForm.tokens]
  exact forall₂_fieldsFrom _ 8 os [.ident c.mnemonic]

/-- An instruction with resolved labels is encoded exactly if its operands fit. -/
theorem exists_encode_iff {c c' : Command} {e : Entry} {os : List Operand} (hForm : c.Form e os)
    (hUnsigned : ∀ t ∈ c.tokens, t.token.Unsigned) {table : SymbolTable}
    (hResolved : table.resolve c = .ok c') :
    (∃ w, c'.encode = .ok w) ↔ ∀ o ∈ os, o.Fits table.addressOf? e.format := by
  have hSpec := (encodeFields_spec hResolved hUnsigned (aligned_of_form hForm)
    (bits_add_shift_le e.format)).1
  rw [encode_eq hForm hResolved]
  refine Iff.trans ⟨?_, ?_⟩ hSpec
  · intro hGiven
    rcases hGiven with ⟨w, h⟩
    obtain ⟨operands, hOperands, -⟩ := exists_of_bind_eq_ok h
    exact ⟨operands, hOperands⟩
  · intro hGiven
    rcases hGiven with ⟨operands, hOperands⟩
    rw [hOperands]
    exact ⟨_, rfl⟩

/-- The word in which an instruction is encoded is the one that its operands make up. -/
theorem toNat_of_encode {c c' : Command} {e : Entry} {os : List Operand} (hForm : c.Form e os)
    (hUnsigned : ∀ t ∈ c.tokens, t.token.Unsigned) {table : SymbolTable}
    (hResolved : table.resolve c = .ok c') {w : UInt16} (h : c'.encode = .ok w) :
    w.toNat = assembledWord table.addressOf? e os := by
  have hFit := (exists_encode_iff hForm hUnsigned hResolved).1 ⟨w, h⟩
  rw [encode_eq hForm hResolved] at h
  obtain ⟨operands, hOperands, h⟩ := exists_of_bind_eq_ok h
  obtain rfl := Except.ok.inj h
  have hValue := (encodeFields_spec hResolved hUnsigned (aligned_of_form hForm)
    (bits_add_shift_le e.format)).2 operands hOperands
  rw [UInt16.toNat_or, hValue, packed_fields hForm.kinds hFit, assembledWord]
  simp only [Nat.or_assoc]

/-! ## Encoding a program -/

/-- A program that fits is encoded instruction by instruction, two bytes for each. -/
theorem encodeFrom_eq_ok_iff {size : Nat} {cs : List Command} {bytes : List UInt8}
    (hFits : size + 2 * cs.length ≤ programCapacity) :
    encodeFrom size cs = .ok bytes ↔
      ∃ ws, List.Forall₂ (fun c w => c.encode = .ok w) cs ws ∧ ws.flatMap wordBytes = bytes := by
  induction cs generalizing size bytes with
  | nil => simp [encodeFrom, List.forall₂_nil_left_iff]
  | cons c cs ih =>
      have hRoom : ¬ programCapacity < size + 2 := by
        simp only [List.length_cons] at hFits
        omega
      have hRest : size + 2 + 2 * cs.length ≤ programCapacity := by
        simp only [List.length_cons] at hFits
        omega
      rw [encodeFrom, if_neg hRoom]
      constructor
      · intro h
        obtain ⟨w, hw, h⟩ := exists_of_bind_eq_ok h
        obtain ⟨rest, hMore, h⟩ := exists_of_bind_eq_ok h
        obtain rfl := Except.ok.inj h
        obtain ⟨ws, hws, rfl⟩ := (ih hRest).1 hMore
        exact ⟨w :: ws, List.Forall₂.cons hw hws, rfl⟩
      · intro hGiven
        rcases hGiven with ⟨ws, hws, rfl⟩
        obtain ⟨w, ws', hw, hws', rfl⟩ := List.forall₂_cons_left_iff.1 hws
        rw [hw, (ih hRest).2 ⟨ws', hws', rfl⟩]
        rfl

end Chip8.Asm

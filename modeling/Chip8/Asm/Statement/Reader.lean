import Chip8.Asm.Label
import Chip8.Asm.ParseError
import Chip8.Asm.Statement

/-!
# Reading statements

A source text is a row of label definitions and instructions, in which comments may
stand anywhere but inside an instruction. Line ends have no meaning: where an
instruction ends is told by the number of operands of its mnemonic alone. The operands
are read by their kinds, and the entry of the opcode table is chosen by the kinds and
the special register among them.

The instructions of a text lie at consecutive addresses from the start of a program, two
bytes apart, and a label stands for the address of the next instruction.

## Main definitions

* `readOperand`, `readOperands`, `readCommand` — reading one instruction.
* `readStatements` — reading a row of statements.
* `parse` — the statements of a source text.

## Main results

* `append_of_readCommand` — an instruction is what the tokens begin with; nothing is
  lost.
-/

namespace Chip8.Asm

/-! ## Reading an instruction -/

/-- What is read of an operand. -/
structure OperandShape where
  kind : OperandKind
  special : Option Special
  deriving DecidableEq, Repr

/-- The next token, which must be `expected`; the text ends at offset `stop`. -/
def expect (stop : Nat) (expected : Token) :
    List Located → Except ParseError (Located × List Located)
  | [] => .error (.unexpected ⟨.endOfInput, ⟨stop, stop⟩⟩)
  | t :: ts => if t.token = expected then .ok (t, ts) else .error (.unexpected t)

/-- The next token, which must be a number. -/
def expectNumber (stop : Nat) : List Located → Except ParseError (Located × List Located)
  | [] => .error (.unexpected ⟨.endOfInput, ⟨stop, stop⟩⟩)
  | t :: ts =>
    match t.token with
    | .hex _ => .ok (t, ts)
    | .decimal _ => .ok (t, ts)
    | _ => .error (.unexpected t)

/-- Reads an operand: its shape, its tokens, and the tokens behind it. -/
def readOperand (stop : Nat) :
    List Located → Except ParseError (OperandShape × List Located × List Located)
  | [] => .error (.unexpected ⟨.endOfInput, ⟨stop, stop⟩⟩)
  | t :: ts =>
    match t.token with
    | .ident (.keyword .reg) => do
      let (opening, ts) ← expect stop .openBracket ts
      let (number, ts) ← expectNumber stop ts
      let (closing, ts) ← expect stop .closeBracket ts
      return (⟨.register, none⟩, [t, opening, number, closing], ts)
    | .ident (.keyword (.special s)) => .ok (⟨.special, some s⟩, [t], ts)
    | .hex _ => .ok (⟨.value, none⟩, [t], ts)
    | .decimal _ => .ok (⟨.value, none⟩, [t], ts)
    | .labelRef _ => .ok (⟨.value, none⟩, [t], ts)
    | _ => .error (.unexpected t)

/-- Reads the operands behind the first one, each with the comma in front of it. -/
def readMoreOperands (stop : Nat) :
    Nat → List Located → Except ParseError (List OperandShape × List Located × List Located)
  | 0, ts => .ok ([], [], ts)
  | count + 1, ts => do
    let (comma, ts) ← expect stop .comma ts
    let (shape, operand, ts) ← readOperand stop ts
    let (shapes, operands, ts) ← readMoreOperands stop count ts
    return (shape :: shapes, comma :: operand ++ operands, ts)

/-- Reads a number of operands with commas between them. -/
def readOperands (stop : Nat) :
    Nat → List Located → Except ParseError (List OperandShape × List Located × List Located)
  | 0, ts => .ok ([], [], ts)
  | count + 1, ts => do
    let (shape, operand, ts) ← readOperand stop ts
    let (shapes, operands, ts) ← readMoreOperands stop count ts
    return (shape :: shapes, operand ++ operands, ts)

/-- The form of a mnemonic with operands of the given shapes. The special register of an
instruction is the first that its operands name. -/
def formOf? (mnemonic : Ident) (shapes : List OperandShape) : Option Entry :=
  (Entry.named mnemonic).find? fun e =>
    e.format.operands = shapes.map (·.kind) ∧ e.special = shapes.findSome? (·.special)

/-- Reads the instruction that begins with the token `lead`, a mnemonic. -/
def readCommand (stop : Nat) (offset : UInt16) (mnemonic : Ident) (lead : Located)
    (ts : List Located) : Except ParseError (Command × List Located) :=
  match Entry.arity? mnemonic with
  | none => .error ⟨.unexpectedToken mnemonic.text, .single lead.span⟩
  | some arity => do
    let (shapes, operands, rest) ← readOperands stop arity ts
    let tokens := lead :: operands
    match formOf? mnemonic shapes with
    | some form => .ok (⟨mnemonic, form.format, tokens, offset⟩, rest)
    | none => .error ⟨.invalidOperands mnemonic, .single (.cover (tokens.map (·.span)))⟩

/-! ## Reading leaves a rest of the tokens -/

theorem cons_of_expect {stop : Nat} {expected : Token} {ts rest : List Located} {t : Located}
    (h : expect stop expected ts = .ok (t, rest)) : ts = t :: rest ∧ t.token = expected := by
  cases ts with
  | nil => simp [expect] at h
  | cons u us =>
    simp only [expect] at h
    split at h
    · rename_i eq
      simp only [Except.ok.injEq, Prod.mk.injEq] at h
      obtain ⟨rfl, rfl⟩ := h
      exact ⟨rfl, eq⟩
    · simp at h

theorem cons_of_expectNumber {stop : Nat} {ts rest : List Located} {t : Located}
    (h : expectNumber stop ts = .ok (t, rest)) : ts = t :: rest := by
  cases ts with
  | nil => simp [expectNumber] at h
  | cons u us =>
    simp only [expectNumber] at h
    split at h <;> simp_all

/-- An operand is what the tokens begin with. -/
theorem append_of_readOperand {stop : Nat} {ts operand rest : List Located}
    {shape : OperandShape} (h : readOperand stop ts = .ok (shape, operand, rest)) :
    ts = operand ++ rest := by
  cases ts with
  | nil => simp [readOperand] at h
  | cons t ts =>
    simp only [readOperand] at h
    split at h
    · obtain ⟨⟨o, ts₁⟩, hOpening, h⟩ := exists_of_bind_eq_ok h
      obtain ⟨⟨n, ts₂⟩, hNumber, h⟩ := exists_of_bind_eq_ok h
      obtain ⟨⟨c, ts₃⟩, hClosing, h⟩ := exists_of_bind_eq_ok h
      simp only [pure, Except.pure, Except.ok.injEq, Prod.mk.injEq] at h
      obtain ⟨-, rfl, rfl⟩ := h
      simp only at hNumber hClosing
      rw [(cons_of_expect hOpening).1, cons_of_expectNumber hNumber, (cons_of_expect hClosing).1]
      rfl
    all_goals simp only [Except.ok.injEq, Prod.mk.injEq, reduceCtorEq] at h
    all_goals
      obtain ⟨-, rfl, rfl⟩ := h
      rfl

/-- The operands behind the first one are what the tokens begin with. -/
theorem append_of_readMoreOperands {stop count : Nat} {ts operands rest : List Located}
    {shapes : List OperandShape}
    (h : readMoreOperands stop count ts = .ok (shapes, operands, rest)) :
    ts = operands ++ rest := by
  induction count generalizing ts operands rest shapes with
  | zero => simp_all [readMoreOperands]
  | succ count ih =>
    obtain ⟨⟨c, ts₁⟩, hComma, h⟩ := exists_of_bind_eq_ok h
    obtain ⟨⟨shape, os, ts₂⟩, hOperand, h⟩ := exists_of_bind_eq_ok h
    obtain ⟨⟨shapes', os', ts₃⟩, hMore, h⟩ := exists_of_bind_eq_ok h
    simp only [pure, Except.pure, Except.ok.injEq, Prod.mk.injEq] at h
    obtain ⟨-, rfl, rfl⟩ := h
    rw [(cons_of_expect hComma).1, append_of_readOperand hOperand, ih hMore]
    simp

/-- The operands are what the tokens begin with. -/
theorem append_of_readOperands {stop count : Nat} {ts operands rest : List Located}
    {shapes : List OperandShape}
    (h : readOperands stop count ts = .ok (shapes, operands, rest)) :
    ts = operands ++ rest := by
  cases count with
  | zero => simp_all [readOperands]
  | succ count =>
    obtain ⟨⟨shape, os, ts₁⟩, hOperand, h⟩ := exists_of_bind_eq_ok h
    obtain ⟨⟨shapes', os', ts₂⟩, hMore, h⟩ := exists_of_bind_eq_ok h
    simp only [pure, Except.pure, Except.ok.injEq, Prod.mk.injEq] at h
    obtain ⟨-, rfl, rfl⟩ := h
    rw [append_of_readOperand hOperand, append_of_readMoreOperands hMore]
    simp

/-- An instruction is what the tokens begin with. -/
theorem append_of_readCommand {stop : Nat} {offset : UInt16} {mnemonic : Ident}
    {lead : Located} {ts rest : List Located} {c : Command}
    (h : readCommand stop offset mnemonic lead ts = .ok (c, rest)) :
    lead :: ts = c.tokens ++ rest := by
  unfold readCommand at h
  split at h
  · simp at h
  · obtain ⟨⟨shapes, os, ts₁⟩, hOperands, h⟩ := exists_of_bind_eq_ok h
    simp only at h
    split at h
    · simp only [Except.ok.injEq, Prod.mk.injEq] at h
      obtain ⟨rfl, rfl⟩ := h
      simp [append_of_readOperands hOperands]
    · simp at h

/-- Behind an instruction there are no more tokens than behind its mnemonic. -/
theorem length_le_of_readCommand {stop : Nat} {offset : UInt16} {mnemonic : Ident}
    {lead : Located} {ts rest : List Located} {c : Command}
    (h : readCommand stop offset mnemonic lead ts = .ok (c, rest)) :
    rest.length ≤ ts.length := by
  unfold readCommand at h
  split at h
  · simp at h
  · obtain ⟨⟨shapes, os, ts₁⟩, hOperands, h⟩ := exists_of_bind_eq_ok h
    simp only at h
    split at h
    · simp only [Except.ok.injEq, Prod.mk.injEq] at h
      obtain ⟨rfl, rfl⟩ := h
      simp [append_of_readOperands hOperands]
    · simp at h

/-! ## Reading a text -/

/-- The tokens behind the colon of a label definition. -/
def skipColon : List Located → List Located
  | [] => []
  | t :: ts => if t.token = .colon then ts else t :: ts

private theorem length_skipColon_le (ts : List Located) : (skipColon ts).length ≤ ts.length := by
  cases ts with
  | nil => simp [skipColon]
  | cons t ts =>
    simp only [skipColon]
    split <;> simp

/-- The statements that tokens make up, the next instruction lying at `offset`. -/
def readStatements (stop : Nat) (offset : UInt16) :
    List Located → Except ParseError (List Statement)
  | [] => .ok []
  | t :: ts =>
    match t.token with
    | .comment => readStatements stop offset ts
    | .labelDef name => do
      let rest ← readStatements stop offset (skipColon ts)
      return .label ⟨name, t.span.start⟩ offset :: rest
    | .ident (.keyword (.mnemonic m)) =>
      match _step : readCommand stop offset (.keyword (.mnemonic m)) t ts with
      | .error e => .error e
      | .ok (c, ts') => do
        let rest ← readStatements stop (offset + 2) ts'
        return .command c :: rest
    | _ => .error (.unexpected t)
termination_by ts => ts.length
decreasing_by
  · simp
  · have := length_skipColon_le ts
    simp only [List.length_cons]
    omega
  · have := length_le_of_readCommand _step
    simp only [List.length_cons]
    omega

/-- The statements of a source text. -/
def parse (source : String) : Except ParseError (List Statement) := do
  let stream ← resolve source
  readStatements stream.stop (UInt16.ofNat programStart) stream.tokens

end Chip8.Asm

import Chip8.Asm.AssemblyError
import Chip8.Asm.Statement
import Chip8.Isa.Word
import Chip8.Text.Cut

/-!
# Encoding instructions

An instruction is encoded in one word: the base of its entry in the opcode table, with
the operands in their fields. Words are laid out in memory with the high byte first.

Numbers are read exactly as they are written; the number of a label is its address. What
is read is checked against the width of the field.

## Main definitions

* `readValue` — a number as the value of a field.
* `Command.encode` — an instruction as a word.
* `encodeAll` — a row of instructions as bytes.

## Main results

* `length_encodeAll_le` — encoded programs fit in the memory for programs.
-/

namespace Chip8.Asm

/-! ## Numbers -/

/-- The number that a token writes. -/
def readNumber (bits : Nat) (t : Located) : Except AssemblyError UInt16 :=
  let read := fun (radix : Nat) (digits : List Char) (text : String) =>
    match Text.readWord radix digits with
    | .ok word => .ok word
    | .error .malformed => .error (AssemblyError.single (.invalidNumber text) t.span)
    | .error .overflow => .error (AssemblyError.single (.overflow ⟨bits⟩) t.span)
  match t.token with
  | .decimal digits => read 10 digits.toList digits
  | .hex digits =>
    match Text.after? ['0', 'x'] digits.toList with
    | some rest => read 16 rest digits
    | none => .error (.single (.invalidNumber digits) t.span)
  | .labelRef name => .error (.single (.unresolvedLabel name) t.span)
  | _ => .error (.single .malformedCommand t.span)

/-- The number that a token writes, as the value of a field of `bits` bits. -/
def readValue (bits : Nat) (t : Located) : Except AssemblyError (Field bits) :=
  match readNumber bits t with
  | .error e => .error e
  | .ok word =>
    match Field.ofWord bits word with
    | .ok field => .ok field
    | .error e => .error (.single (.overflow e) t.span)

/-! ## Instructions -/

namespace Command

/-- The special register of an instruction: the first that a token names. -/
def special? (c : Command) : Option Special := c.tokens.findSome? (·.token.special?)

/-- The bits that one operand puts into the word. -/
def encodeField (c : Command) (f : OperandField) : Except AssemblyError UInt16 :=
  match c.tokens[f.position]? with
  | none => .error (.single .malformedCommand c.span)
  | some t =>
    match f.kind with
    | .special => .ok 0
    | _ => do
      let value ← readValue f.bits t
      return value.value <<< UInt16.ofNat f.shift

/-- The bits that operands put into the word. -/
def encodeFields (c : Command) : List OperandField → Except AssemblyError UInt16
  | [] => .ok 0
  | f :: fs => do
    let first ← c.encodeField f
    let others ← c.encodeFields fs
    return first ||| others

/-- The word of an instruction whose labels are resolved. -/
def encode (c : Command) : Except AssemblyError UInt16 :=
  match Entry.lookup? c.mnemonic c.format c.special? with
  | none => .error (.single (.noEntry c.mnemonic) c.span)
  | some entry => do
    let operands ← c.encodeFields c.format.fields
    return entry.base ||| operands

end Command

/-! ## Programs -/

/-- The bytes of instructions that come behind `size` bytes of the program. -/
def encodeFrom (size : Nat) : List Command → Except AssemblyError (List UInt8)
  | [] => .ok []
  | c :: cs =>
    if programCapacity < size + 2 then .error (.single .programTooLarge c.span)
    else do
      let word ← c.encode
      let rest ← encodeFrom (size + 2) cs
      return wordBytes word ++ rest

/-- The bytes of a program. -/
def encodeAll (commands : List Command) : Except AssemblyError (List UInt8) :=
  encodeFrom 0 commands

theorem length_encodeFrom {size : Nat} {cs : List Command} {bytes : List UInt8}
    (h : encodeFrom size cs = .ok bytes) :
    bytes.length = 2 * cs.length ∧ (size ≤ programCapacity →
      size + bytes.length ≤ programCapacity) := by
  induction cs generalizing size bytes with
  | nil =>
    simp only [encodeFrom, Except.ok.injEq] at h
    subst h
    simp
  | cons c cs ih =>
    simp only [encodeFrom] at h
    split at h
    · simp at h
    · obtain ⟨word, _, h⟩ := exists_of_bind_eq_ok h
      obtain ⟨rest, hMore, h⟩ := exists_of_bind_eq_ok h
      simp only [pure, Except.pure, Except.ok.injEq] at h
      obtain ⟨hCount, hFits⟩ := ih hMore
      subst h
      simp only [wordBytes, List.length_append, List.length_cons, List.length_nil]
      omega

/-- An encoded program fits in the memory for programs. -/
theorem length_encodeAll_le {cs : List Command} {bytes : List UInt8}
    (h : encodeAll cs = .ok bytes) : bytes.length ≤ programCapacity := by
  have := (length_encodeFrom h).2 (Nat.zero_le _)
  omega

end Chip8.Asm

import Chip8.Asm.Token
import Chip8.Isa.Opcode

/-!
# Errors of reading a source text

Reading and encoding are rows of steps, each of which gives a value or an error, and the
first error ends the row.

## Main definitions

* `ParseFault` — what is wrong; `ParseFault.message`, `ParseFault.help`.
* `ParseError` — a fault with its place.
* `ParseError.unexpected` — the error for a token that cannot stand where it does.

## Main results

* `exists_of_bind_eq_ok` — where a row of steps succeeds, each of them does.
* `bind_eq_error_iff` — a row of steps fails by the first step that fails.
-/

namespace Chip8

/-! ## Rows of steps that may fail -/

section Steps

variable {ε α β : Type}

/-- A step followed by others succeeds only if the step and the others do. -/
theorem exists_of_bind_eq_ok {step : Except ε α} {next : α → Except ε β} {b : β}
    (h : step >>= next = .ok b) : ∃ a, step = .ok a ∧ next a = .ok b := by
  cases step with
  | error e => exact absurd h (by simp [bind, Except.bind])
  | ok a => exact ⟨a, rfl, h⟩

/-- A step followed by others fails by its own error, or else by one of theirs. -/
theorem bind_eq_error_iff {step : Except ε α} {next : α → Except ε β} {e : ε} :
    step >>= next = .error e ↔
      step = .error e ∨ ∃ a, step = .ok a ∧ next a = .error e := by
  cases step <;> simp [bind, Except.bind]

end Steps

end Chip8

namespace Chip8.Asm

/-! ## Errors -/

/-- What is wrong with a source text. -/
inductive ParseFault where
  /-- A character that begins no token. -/
  | illegalToken (symbol : String)
  /-- A token that cannot stand where it does. -/
  | unexpectedToken (text : String)
  /-- The text ends inside an instruction. -/
  | unexpectedEnd
  /-- A word that is neither a keyword nor a defined label. -/
  | undefinedLabel (name : String)
  /-- Operands that no form of the mnemonic has. -/
  | invalidOperands (mnemonic : Ident)
  deriving DecidableEq, Repr

namespace ParseFault

/-- What is said about the fault. -/
def message : ParseFault → String
  | illegalToken symbol => "unrecognized symbol `" ++ symbol ++ "`"
  | unexpectedToken text => "unexpected token `" ++ text ++ "`"
  | unexpectedEnd => "unexpected end of input"
  | undefinedLabel name => "label `" ++ name ++ "` is not defined"
  | invalidOperands mnemonic => "invalid operands for " ++ mnemonic.text

/-- Advice on the fault. -/
def help : ParseFault → String
  | illegalToken _ => "this char does not occur in any token in CHIP-8 assembly"
  | unexpectedToken _ => "each line should hold a label definition or an instruction"
  | unexpectedEnd => "this instruction is missing operands"
  | undefinedLabel _ =>
    "try adding a label definition with this name followed by a colon"
  | invalidOperands mnemonic =>
    mnemonic.text ++ " accepts the operand formats: "
      ++ ", ".intercalate ((Entry.named mnemonic).map (·.format.name))

end ParseFault

/-- A fault with the place that it concerns. -/
structure ParseError where
  fault : ParseFault
  extent : Extent
  deriving DecidableEq, Repr

namespace ParseError

/-- The error for a token that cannot stand where it does. -/
def unexpected (t : Located) : ParseError :=
  let fault : ParseFault :=
    match t.token with
    | .endOfInput => .unexpectedEnd
    | .illegal symbol => .illegalToken symbol
    | .ident (.unknown name) => .undefinedLabel name
    | token => .unexpectedToken token.text
  ⟨fault, .single t.span⟩

end ParseError

end Chip8.Asm

import Chip8.Asm.Token
import Chip8.Isa.Format

/-!
# Statements

A program is a row of statements, each of which defines a label or is an instruction.
Both have an address: an instruction that at which it lies, and a label that for which
it stands. Statements come from a source text, or they are put together by other means;
in the second case nothing says that the addresses follow each other, or that the tokens
of an instruction are what its format asks for.

## Main definitions

* `Label`, `Label.span` — a label as it is defined; `Label.span?` is its place where
  that ends at an offset.
* `Command`, `Command.span` — an instruction as it is written.
* `Statement`, `Statement.command?`.

## Main results

* `Label.span?_eq_some_iff` — which labels have a place, and that it is the place of the
  name.
-/

namespace Chip8.Asm

/-- A label as it is defined: its name and where the name begins. -/
structure Label where
  name : String
  start : Nat
  deriving DecidableEq, Repr

namespace Label

/-- The place of the name. -/
def span (l : Label) : Span := ⟨l.start, l.start + Text.byteLength l.name.toList⟩

/-- The place of the name, if its end is an offset. A label that was not read from a
text may begin so late that it is not. -/
def span? (l : Label) : Option Span :=
  if l.span.stop < offsetCount then some l.span else none

/-- A place that is given is the place of the name. -/
theorem span?_eq_some_iff {l : Label} {s : Span} :
    l.span? = some s ↔ l.span = s ∧ s.stop < offsetCount := by
  by_cases hEnds : l.span.stop < offsetCount
  · simp only [span?, hEnds, if_true, Option.some.injEq]
    exact ⟨fun hSame => ⟨hSame, hSame ▸ hEnds⟩, And.left⟩
  · simp only [span?, hEnds, if_false, reduceCtorEq, false_iff]
    rintro ⟨hSame, hInside⟩
    exact hEnds (hSame ▸ hInside)

end Label

/-- An instruction as it is written: its tokens, and the form that they have. -/
structure Command where
  mnemonic : Ident
  format : Format
  /-- The tokens from the mnemonic to the end of the last operand. -/
  tokens : List Located
  /-- The address of the instruction. -/
  offset : UInt16
  deriving DecidableEq, Repr

namespace Command

/-- The place of the instruction. -/
def span (c : Command) : Span := .cover (c.tokens.map (·.span))

end Command

/-- A part of a program. -/
inductive Statement where
  | label (l : Label) (offset : UInt16)
  | command (c : Command)
  deriving DecidableEq, Repr

namespace Statement

/-- The instruction that a statement is, if it is one. -/
def command? : Statement → Option Command
  | command c => some c
  | label _ _ => none

end Statement

end Chip8.Asm

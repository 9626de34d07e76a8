import Chip8.Asm.ParseError
import Chip8.Isa.Field

/-!
# Errors of assembling

A program that cannot be read is reported by the fault of its text; the other faults
concern instructions that are read but cannot be encoded. Some of these arise only for
statements that were made by other means than by reading a text.

## Main definitions

* `AssemblyFault` — what is wrong; `AssemblyFault.message`, `help?`, `cause?`.
* `AssemblyError` — a fault with its place.
-/

namespace Chip8.Asm

/-- What is wrong with a program. -/
inductive AssemblyFault where
  /-- The text cannot be read. -/
  | unreadable (fault : ParseFault)
  /-- No form of the mnemonic has these operands. -/
  | noEntry (mnemonic : Ident)
  /-- The tokens of an instruction are not what its format asks for. -/
  | malformedCommand
  /-- A label is used and not defined. -/
  | missingLabel
  /-- An operand is still a label and not an address. -/
  | unresolvedLabel (name : String)
  /-- A number with digits that it cannot have. -/
  | invalidNumber (digits : String)
  /-- A number that is too large for its field. -/
  | overflow (field : FieldOverflow)
  /-- An instruction lies outside the memory for programs. -/
  | programTooLarge
  deriving DecidableEq, Repr

namespace AssemblyFault

/-- What is said about the fault. -/
def message : AssemblyFault → String
  | unreadable fault => fault.message
  | noEntry mnemonic => "no opcode exists for this form of " ++ mnemonic.text
  | malformedCommand => "instruction does not match its operand format"
  | missingLabel => "label could not be found"
  | unresolvedLabel name => "label `" ++ name ++ "` was not resolved to an address"
  | invalidNumber digits => "invalid numeric literal `" ++ digits ++ "`"
  | overflow field => field.message
  | programTooLarge => "program does not fit in memory"

/-- Advice on the fault, if there is any. -/
def help? : AssemblyFault → Option String
  | unreadable _ => none
  | noEntry _ =>
    some "the instruction was segmented into a form the opcode table does not know"
  | malformedCommand => some "instructions should be created by the parser"
  | missingLabel => some "try adding this label before an instruction"
  | unresolvedLabel _ =>
    some "label references must be resolved with the symbol table before encoding"
  | invalidNumber _ =>
    some "numbers are either decimal (e.g., 42) or hexadecimal with a 0x prefix (e.g., 0x2A)"
  | overflow field => some field.help
  | programTooLarge =>
    some ("programs can be at most " ++ Text.decimal programCapacity ++ " bytes")

/-- What is said about the fault behind this one, if there is one. -/
def cause? : AssemblyFault → Option String
  | overflow field => some field.message
  | _ => none

end AssemblyFault

/-- A fault with the place that it concerns. -/
structure AssemblyError where
  fault : AssemblyFault
  extent : Extent
  deriving DecidableEq, Repr

namespace AssemblyError

/-- A fault that concerns one range of the text. -/
def single (fault : AssemblyFault) (span : Span) : AssemblyError := ⟨fault, .single span⟩

/-- The error of a text that cannot be read. -/
def ofParse (e : ParseError) : AssemblyError := ⟨.unreadable e.fault, e.extent⟩

end AssemblyError

end Chip8.Asm

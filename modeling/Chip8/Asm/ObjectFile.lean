import Chip8.Asm.Encoding
import Chip8.Asm.Statement.Reader
import Chip8.Asm.SymbolTable

/-!
# Object files

An object file holds the image of a program, which always fits in the memory for
programs, and its symbol table if that was kept. It comes from bytes, from the
statements of a program, or from a source text.

## Main definitions

* `ObjectFile`, `ObjectFile.ofBytes?`.
* `ObjectFile.ofStatements`, `ObjectFile.ofSource` — assembling.
* `ObjectFile.words` — the image as words with their addresses.

## Main results

* `ObjectFile.ofBytes?_eq_some_iff` — what bytes become.
-/

namespace Chip8.Asm

/-- The image of a program, with or without its labels. -/
structure ObjectFile where
  image : List UInt8
  symbols : Option SymbolTable
  fits : image.length ≤ programCapacity
  deriving DecidableEq

namespace ObjectFile

/-- The object file without a program. -/
def empty : ObjectFile := ⟨[], none, Nat.zero_le _⟩

instance : Inhabited ObjectFile := ⟨empty⟩

/-- Bytes as an image without labels, if they fit. -/
def ofBytes? (image : List UInt8) : Option ObjectFile :=
  if hFits : image.length ≤ programCapacity then some ⟨image, none, hFits⟩ else none

/-- Bytes that fit are the image, and there are no labels. -/
theorem ofBytes?_eq_some_iff {image : List UInt8} {o : ObjectFile} :
    ofBytes? image = some o ↔ o.image = image ∧ o.symbols = none := by
  cases o with
  | mk bytes symbols hFits =>
    simp only [ofBytes?, Option.dite_none_right_eq_some, Option.some.injEq, mk.injEq]
    constructor
    · rintro ⟨-, rfl, rfl⟩
      exact ⟨rfl, rfl⟩
    · rintro ⟨rfl, rfl⟩
      exact ⟨hFits, rfl, rfl⟩

/-- The program of statements whose labels have the given addresses. -/
def ofResolved (statements : List Statement) (table : SymbolTable) (keepSymbols : Bool) :
    Except AssemblyError ObjectFile :=
  match (statements.filterMap Statement.command?).mapM table.resolve with
  | .error e => .error e
  | .ok commands =>
    match hEncoded : encodeAll commands with
    | .error e => .error e
    | .ok image =>
      .ok ⟨image, if keepSymbols then some table else none, length_encodeAll_le hEncoded⟩

/-- Assembles statements; the symbol table is kept on demand. -/
def ofStatements (keepSymbols : Bool) (statements : List Statement) :
    Except AssemblyError ObjectFile := do
  let table ← SymbolTable.ofStatements? statements
  ofResolved statements table keepSymbols

/-- Assembles a source text and keeps the symbol table. -/
def ofSource (source : String) : Except AssemblyError ObjectFile :=
  match parse source with
  | .error e => .error (.ofParse e)
  | .ok statements => ofStatements true statements

/-- The image as words with their addresses; a last single byte is the high byte of a
word. -/
def words (o : ObjectFile) : List (UInt16 × UInt16) :=
  addressed (UInt16.ofNat programStart) (paddedWordsOf o.image)

end ObjectFile

end Chip8.Asm

import Chip8.Asm.ObjectFile
import Chip8.Text.Cut

/-!
# The text form of object files

The text form is made of lines. Everything from two slashes to the end of a line is a
comment, white space around a line has no meaning, and empty lines are skipped. The
first line names the format. A line that begins with a dot begins a section, and
sections may be repeated, in any order:

* in `.TEXT`, a line has an address in four digits, a space, and the word at that
  address in four digits, or one byte in two digits. The addresses run on from the start
  of a program, so that a single byte can only be the last;
* in `.SYMBOL`, a line has an address in four digits, a bar, and the label of that
  address. The line `ADDR | LABEL` heads the table and is skipped wherever it stands.

No other section has lines. A file has a symbol table if it has a section for one, which
may be empty.

## Main definitions

* `toTextual` — writing.
* `meaningfulLines`, `readLines?`, `ofTextual?` — reading.
-/

namespace Chip8.Asm

/-! ## Writing -/

/-- The first line. -/
def textualHeader : String := "CHIP-8 OBJ FILE"

/-- The lines of an image from `address` on. -/
def imageLines (address : Nat) : List UInt8 → List String
  | high :: low :: rest =>
    (Text.hex 4 address ++ " " ++ Text.hex 2 high.toNat ++ Text.hex 2 low.toNat)
      :: imageLines (address + 2) rest
  | [byte] => [Text.hex 4 address ++ " " ++ Text.hex 2 byte.toNat]
  | [] => []

/-- The lines of a symbol table. -/
def symbolLines (t : SymbolTable) : List String :=
  ".SYMBOL" :: "ADDR | LABEL"
    :: t.byAddress.map fun p => Text.hex 4 p.2.toNat ++ " | " ++ p.1.text

/-- The text form of an object file. -/
def ObjectFile.toTextual (o : ObjectFile) : String :=
  let lines := [textualHeader, "", ".TEXT"] ++ imageLines programStart o.image ++ [""]
    ++ (o.symbols.map symbolLines).getD []
  String.join (lines.map (· ++ "\n"))

/-! ## Reading -/

/-- A line without its comment and the white space around it. -/
def strip (line : List Char) : List Char :=
  Text.trim (((Text.cut? ['/', '/'] line).map (·.1)).getD line)

/-- The lines of a text that are not empty without comments and white space. -/
def meaningfulLines (text : List Char) : List (List Char) :=
  ((Text.lines text).map strip).filter (· ≠ [])

/-- A number of exactly `width` bytes in base sixteen. -/
def readHex? (width : Nat) (cs : List Char) : Option UInt16 :=
  if Text.byteLength cs = width then (Text.readWord 16 cs).toOption else none

/-- A part of a file, by the line that begins it. -/
inductive Section where
  | image
  | symbols
  | other
  deriving DecidableEq, Repr

/-- The section that a line begins. -/
def Section.ofLine (line : List Char) : Section :=
  if line = ".TEXT".toList then .image
  else if line = ".SYMBOL".toList then .symbols
  else .other

/-- The bytes of a line of an image of which `count` bytes came before. -/
def readImageLine? (count : Nat) (line : List Char) : Option (List UInt8) := do
  let (address, data) ← Text.cut? [' '] line
  let address ← readHex? 4 address
  if address.toNat = programStart + count ∧ count % 2 = 0 then
    if Text.byteLength data = 4 then (readHex? 4 data).map wordBytes
    else if Text.byteLength data = 2 then (readHex? 2 data).map fun w => [lowByte w]
    else none
  else none

/-- A table with the label of a line, or without it if the line is the heading. -/
def readSymbolLine? (t : SymbolTable) (line : List Char) : Option SymbolTable := do
  let (address, label) ← Text.cut? ['|'] line
  let (address, label) := (Text.trim address, Text.trim label)
  if address = "ADDR".toList ∧ label = "LABEL".toList then return t
  else
    let address ← readHex? 4 address
    return t.insert (String.ofList label) address

/-- Reads lines inside a section, behind `count` bytes of the image and the labels of
`t`: the bytes that follow, and the labels at the end. -/
def readLines? : Option Section → Nat → Option SymbolTable → List (List Char) →
    Option (List UInt8 × Option SymbolTable)
  | _, _, t, [] => some ([], t)
  | place, count, t, line :: lines =>
    if line.head? = some '.' then
      let next := Section.ofLine line
      let t := if next = .symbols then some (t.getD .empty) else t
      readLines? (some next) count t lines
    else
      match place with
      | some .image => do
        let bytes ← readImageLine? count line
        let (rest, t) ← readLines? place (count + bytes.length) t lines
        return (bytes ++ rest, t)
      | some .symbols => do
        let t ← readSymbolLine? (t.getD .empty) line
        readLines? place count (some t) lines
      | _ => none

/-- The object file of a text. -/
def ObjectFile.ofTextual? (text : String) : Option ObjectFile :=
  match meaningfulLines text.toList with
  | [] => none
  | first :: lines =>
    if first = textualHeader.toList then do
      let (image, symbols) ← readLines? none 0 none lines
      let o ← ofBytes? image
      return { o with symbols }
    else none

end Chip8.Asm

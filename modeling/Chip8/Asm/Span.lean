import Chip8.Text.Numeral

/-!
# Places in a source text

A place is a range of byte offsets into the UTF-8 form of the text. A diagnostic points
at one or more of them.

## Main definitions

* `Span` — a range of offsets; `offsetCount` says how many offsets there are.
* `Extent` — the ranges that a diagnostic points at.
-/

namespace Chip8.Asm

/-- The bytes from offset `start` up to, but without, offset `stop`. -/
structure Span where
  start : Nat
  stop : Nat
  deriving DecidableEq, Repr

/-- The number of offsets that there are: an offset is counted in 64 bits. -/
def offsetCount : Nat := UInt64.size

namespace Span

/-- The two offsets with dots between them. -/
def text (s : Span) : String := Text.decimal s.start ++ ".." ++ Text.decimal s.stop

/-- From the start of the first to the end of the last of a row of spans; an empty row
lies at the beginning of the text. -/
def cover (spans : List Span) : Span :=
  match spans.head?, spans.getLast? with
  | some first, some last => ⟨first.start, last.stop⟩
  | _, _ => ⟨0, 0⟩

end Span

/-- The ranges that a diagnostic points at. -/
structure Extent where
  spans : List Span
  deriving DecidableEq, Repr

namespace Extent

/-- An extent of one range. -/
def single (s : Span) : Extent := ⟨[s]⟩

/-- The first range, if there is one. -/
def first? (e : Extent) : Option Span := e.spans.head?

/-- The ranges with commas between them. -/
def text (e : Extent) : String := ", ".intercalate (e.spans.map Span.text)

end Extent

end Chip8.Asm

import Chip8.Asm.Lexeme
import Chip8.Asm.ParseError
import Std.Data.TreeSet

/-!
# Labels in a source text

An unknown identifier directly in front of a colon defines a label. Once the definitions
of the whole text are known, every other unknown identifier that has the name of a
defined label refers to it, whether the definition comes earlier or later. Only the
kinds of tokens change: their number, order and places stay.

The tokens are read one by one. That an identifier defines a label shows only when the
colon behind it has been read, and is put down then in the token that has been read
before. The references are found in a second pass, over the tokens that have been read.

## Main definitions

* `Resolver` — the tokens of a text, those that have been read and those ahead, and the
  labels found so far.
* `Resolver.collect`, `Resolver.refer` — the two passes.
* `Resolver.read` — reads a text from its start.
* `resolve` — the resolved tokens of a text, which must have no illegal character.
* `labelNames` — the labels that tokens define.
-/

namespace Chip8.Asm

/-- A token of a text with the given labels: an unknown identifier becomes a reference
if it names one of them. -/
def markReference (names : Std.TreeSet String) (t : Located) : Located :=
  match t.token.unknown? with
  | some name => if names.contains name then { t with token := .labelRef name } else t
  | none => t

/-- The names that tokens define. -/
def labelNames (ts : List Located) : Std.TreeSet String :=
  Std.TreeSet.ofList (ts.filterMap (·.token.definition?))

/-- A reader of the tokens of a text. -/
structure Resolver where
  source : String
  /-- The tokens that have not been read, through the end of the text. -/
  ahead : List Located
  /-- The tokens that have been read, the latest first. -/
  behind : List Located
  labels : Std.TreeSet String

namespace Resolver

/-- The reader of a text, before it has read any of it. -/
def start (source : String) : Resolver := ⟨source, (scan source).throughEnd, [], ∅⟩

/-- Goes back to the start of the text, and forgets what has been read. -/
def rewind (r : Resolver) : Resolver :=
  { r with ahead := (scan r.source).throughEnd, behind := [], labels := ∅ }

/-- The tokens that have been read, in their order. -/
def tokens (r : Resolver) : List Located := r.behind.reverse

/-- One more token has been read. -/
def push (r : Resolver) (t : Located) : Resolver := { r with behind := t :: r.behind }

/-- The latest token becomes the definition of a label if it is an unknown
identifier. -/
def defineLatest (r : Resolver) : Resolver :=
  match r.behind with
  | [] => r
  | latest :: front =>
    match latest.token.unknown? with
    | none => r
    | some name =>
      { r with
        behind := { latest with token := .labelDef name } :: front
        labels := r.labels.insert name }

/-- Reads one token. -/
def take (r : Resolver) (t : Located) : Resolver :=
  match t.token with
  | .colon => r.defineLatest.push t
  | _ => r.push t

/-- The first pass: reads the tokens ahead until the text ends, or one of them is
illegal. -/
def collect (r : Resolver) : List Located → Except ParseError Unit × Resolver
  | [] => (.ok (), { r with ahead := [] })
  | t :: ahead =>
    match t.token with
    | .endOfInput => (.ok (), { r.take t with ahead })
    | .illegal symbol => (.error ⟨.illegalToken symbol, .single t.span⟩, { r.take t with ahead })
    | _ => collect (r.take t) ahead

/-- The second pass: unknown identifiers become references to the labels that were
found. -/
def refer (r : Resolver) : Resolver :=
  { r with behind := r.behind.map (markReference r.labels) }

/-- Reads the tokens from the start of the text, and resolves its labels. -/
def read (r : Resolver) : Except ParseError Unit × Resolver :=
  match r.rewind.collect r.rewind.ahead with
  | (.ok (), r) => (.ok (), r.refer)
  | (.error e, r) => (.error e, r)

/-- The tokens that have been read, as a stream: the last one of them is its end
marker. -/
def stream (r : Resolver) : TokenStream :=
  ⟨r.tokens.dropLast, Text.byteLength r.source.toList⟩

end Resolver

/-- The tokens of a text with its labels resolved. -/
def resolve (source : String) : Except ParseError TokenStream :=
  match (Resolver.start source).read with
  | (.ok (), r) => .ok r.stream
  | (.error e, _) => .error e

end Chip8.Asm

import Chip8.Asm.Span
import Chip8.Isa.Keyword

/-!
# Tokens

A token is a smallest piece of assembly text. Tokens carry their text in folded form
where it matters. Reading a text gives numbers, identifiers, punctuation, comments and
illegal characters; the resolution of labels then turns unknown identifiers into
definitions of labels and references to them.

## Main definitions

* `Token`, `Token.text`.
* `Located` — a token with its place.
* `TokenStream` — the tokens of a text, followed by an unlimited supply of end markers.
-/

namespace Chip8.Asm

/-- A smallest piece of assembly text. -/
inductive Token where
  /-- A number that contains an `x`. -/
  | hex (digits : String)
  /-- A number without an `x`. -/
  | decimal (digits : String)
  | ident (id : Ident)
  /-- The name of a label, in front of its colon. -/
  | labelDef (name : String)
  /-- The name of a label that is defined somewhere in the text. -/
  | labelRef (name : String)
  | openBracket
  | closeBracket
  | comma
  | colon
  /-- A number sign and the rest of its line. -/
  | comment
  /-- A character that begins no token. -/
  | illegal (symbol : String)
  /-- Nothing is left of the text. -/
  | endOfInput
  deriving DecidableEq, Repr

namespace Token

/-- A token as it is shown. -/
def text : Token → String
  | hex digits => digits
  | decimal digits => digits
  | ident id => id.text
  | labelDef name => name
  | labelRef name => name
  | openBracket => "["
  | closeBracket => "]"
  | comma => ","
  | colon => ":"
  | comment => "#"
  | illegal symbol => symbol
  | endOfInput => "end of input"

/-- The unknown identifier that a token is, if it is one. -/
def unknown? : Token → Option String
  | ident (.unknown name) => some name
  | _ => none

/-- The label that a token defines, if it does. -/
def definition? : Token → Option String
  | labelDef name => some name
  | _ => none

/-- The symbol of an illegal token. -/
def illegal? : Token → Option String
  | illegal symbol => some symbol
  | _ => none

/-- The special register that a token names, if it names one. -/
def special? : Token → Option Special
  | ident id => id.special?
  | _ => none

end Token

/-- A token with its place in the text. -/
structure Located where
  token : Token
  span : Span
  deriving DecidableEq, Repr

/-- The tokens of a text, and the offset at which the text ends. -/
structure TokenStream where
  tokens : List Located
  stop : Nat
  deriving DecidableEq, Repr

namespace TokenStream

/-- The marker behind the last token. -/
def marker (s : TokenStream) : Located := ⟨.endOfInput, ⟨s.stop, s.stop⟩⟩

/-- The token that is read after `i` others; behind the last one, always the end
marker. -/
def read (s : TokenStream) (i : Nat) : Located := s.tokens[i]?.getD s.marker

/-- The tokens up to and including the first end marker. -/
def throughEnd (s : TokenStream) : List Located := s.tokens ++ [s.marker]

theorem read_of_length_le {s : TokenStream} {i : Nat} (h : s.tokens.length ≤ i) :
    s.read i = s.marker := by
  simp [read, List.getElem?_eq_none h]

end TokenStream

end Chip8.Asm

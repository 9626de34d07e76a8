import Chip8.Asm.Token

/-!
# Reading tokens

A text is read from the left. Blanks (spaces, tabs and line ends) separate tokens and
are dropped; at any other character the longest possible lexeme is taken off and
classified by its first character:

* a digit begins a number, which takes in all hexadecimal digits and every `x`, so that
  `12ab` is one token and not a number followed by a word;
* a letter or underscore begins an identifier;
* a number sign begins a comment, up to the end of the line;
* brackets, comma and colon stand for themselves;
* any other character is an illegal token of its own.

## Main definitions

* `lexeme`, `Token.ofLexeme` — the longest lexeme at the front of a text, and its token.
* `scan` — the tokens of a text.

## Main results

* `lexeme_append_drop` — a lexeme is what the text begins with; nothing is lost.
* `lexeme_ne_nil` — a lexeme takes at least one character.
-/

namespace Chip8.Asm

/-! ## Characters -/

/-- The characters between tokens. -/
def isSeparator (c : Char) : Bool := c = ' ' || c = '\t' || c = '\r' || c = '\n'

/-- The characters that end a comment. -/
def isLineEnd (c : Char) : Bool := c = '\r' || c = '\n'

/-- The letter between the zero and the digits of a hexadecimal number, in either
case. -/
def isRadixMark (c : Char) : Bool := c = 'x' || c = 'X'

/-- The characters that continue a number. -/
def isNumeric (c : Char) : Bool :=
  c.isDigit || ('a' ≤ c && c ≤ 'f') || ('A' ≤ c && c ≤ 'F') || isRadixMark c

/-- The characters that begin an identifier. -/
def isWordStart (c : Char) : Bool := c.isAlpha || c = '_'

/-- The characters that continue an identifier. -/
def isWordPart (c : Char) : Bool := c.isAlphanum || c = '_'

/-! ## Lexemes -/

/-- The longest lexeme that a text begins with, separators apart. -/
def lexeme : List Char → List Char
  | [] => []
  | c :: cs =>
    if c.isDigit then c :: cs.takeWhile isNumeric
    else if isWordStart c then c :: cs.takeWhile isWordPart
    else if c = '#' then c :: cs.takeWhile (fun d => !isLineEnd d)
    else [c]

/-- The lexeme and what is left make up the text. -/
theorem lexeme_append_drop (cs : List Char) :
    lexeme cs ++ cs.drop (lexeme cs).length = cs := by
  cases cs with
  | nil => rfl
  | cons c cs =>
    have hFront (p : Char → Bool) : cs.takeWhile p ++ cs.drop (cs.takeWhile p).length = cs :=
      List.prefix_iff_eq_append.1 (List.takeWhile_prefix p)
    simp only [lexeme]
    split
    · simp [hFront]
    · split
      · simp [hFront]
      · split <;> simp [hFront]

theorem lexeme_ne_nil (c : Char) (cs : List Char) : lexeme (c :: cs) ≠ [] := by
  simp only [lexeme]
  split
  · simp
  · split
    · simp
    · split <;> simp

/-- The token that a lexeme stands for. -/
def Token.ofLexeme : List Char → Token
  | [] => .endOfInput
  | c :: cs =>
    let text := String.ofList (c :: cs)
    if c.isDigit then
      if (c :: cs).any isRadixMark then .hex (Text.foldCase text)
      else .decimal (Text.foldCase text)
    else if isWordStart c then .ident (Ident.ofString text)
    else if c = '#' then .comment
    else if c = '[' then .openBracket
    else if c = ']' then .closeBracket
    else if c = ',' then .comma
    else if c = ':' then .colon
    else .illegal (Text.foldCase text)

/-! ## Texts -/

/-- What follows a lexeme is shorter than the text that it was taken from. -/
theorem length_drop_lexeme_lt (c : Char) (cs : List Char) :
    ((c :: cs).drop (lexeme (c :: cs)).length).length < (c :: cs).length := by
  have hTaken : 0 < (lexeme (c :: cs)).length := List.length_pos_iff.2 (lexeme_ne_nil c cs)
  simp only [List.length_drop, List.length_cons]
  omega

/-- The tokens of characters that begin at offset `start` of a text. -/
def scanFrom (start : Nat) : List Char → List Located
  | [] => []
  | c :: cs =>
    if isSeparator c then scanFrom (start + c.utf8Size) cs
    else
      let lead := lexeme (c :: cs)
      let stop := start + Text.byteLength lead
      ⟨.ofLexeme lead, ⟨start, stop⟩⟩ :: scanFrom stop ((c :: cs).drop lead.length)
termination_by cs => cs.length
decreasing_by
  · simp
  · exact length_drop_lexeme_lt c cs

/-- The tokens of a text. -/
def scan (source : String) : TokenStream :=
  ⟨scanFrom 0 source.toList, Text.byteLength source.toList⟩

/-! ## Illegal characters -/

/-- A character that begins no token. -/
inductive LexFault where
  | invalidSymbol
  deriving DecidableEq, Repr

namespace LexFault

/-- What is said about the character. -/
def message : LexFault → String
  | invalidSymbol => "unrecognized symbol"

/-- The rule that it breaks, as advice. -/
def help : LexFault → String
  | invalidSymbol => "this char does not occur in any token in CHIP-8 assembly"

end LexFault

/-- A fault for each illegal token of a text, in order. -/
def lexFaults (source : String) : List LexFault :=
  (scan source).tokens.filterMap fun t => t.token.illegal?.map fun _ => .invalidSymbol

end Chip8.Asm

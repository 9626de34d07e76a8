import Chip8.Proofs.Asm.Scanning
import Mathlib.Computability.Language

/-!
# The lexical rules

The lexical rules of the assembly language, as regular languages: what a number, an
identifier, a comment and punctuation look like, without regard to how they are found.
Among the texts that match a rule, the longest one at the front of what is left is the
next token; where no text at the front matches any rule, the next token is a single
illegal character.

The reader looks at one character and takes in the ones behind it as long as they can
belong to the token. This finds the longest text, because the first character leaves no
choice but that between the two kinds of numbers, and both kinds are taken in with the
same characters.

## Main definitions

* `single`, `oneOf`, `noneOf` — the languages of single characters.
* `LexicalRule`, `LexicalRule.pattern` — the rules.
* `LexicalRule.Gives` — the token that a text gives by a rule.
* `Reads` — the longest match at the front of a text, or an illegal character.

## Main results

* `LexicalRule.lexeme_of_begins` — what the reader takes off where a rule can begin.
* `reads_lexeme` — the reader takes off the longest match.
* `Reads.hex_iff`, `Reads.keyword_iff`, `Reads.illegal_iff` — what a token tells about
  its text.
-/

namespace Chip8.Asm

open Computability

/-! ## Languages of single characters -/

/-- The texts of a single character with a property. -/
def single (p : Char → Prop) : Language Char := {cs | ∃ c, cs = [c] ∧ p c}

/-- The character lies in one of the ranges. -/
def Within (ranges : List (Char × Char)) (c : Char) : Prop :=
  ∃ range ∈ ranges, range.1 ≤ c ∧ c ≤ range.2

/-- A single character from one of the ranges. -/
def oneOf (ranges : List (Char × Char)) : Language Char := single (Within ranges)

/-- A single character that is none of these. -/
def noneOf (excluded : List Char) : Language Char := single (· ∉ excluded)

variable {p : Char → Prop} {l : Language Char} {c d : Char} {cs ds : List Char}

private theorem mem_single_mul : cs ∈ single p * l ↔ ∃ c rest, cs = c :: rest ∧ p c ∧ rest ∈ l := by
  rw [Language.mem_mul]
  constructor
  · rintro ⟨first, ⟨c, rfl, hFirst⟩, rest, hRest, rfl⟩
    exact ⟨c, rest, rfl, hFirst, hRest⟩
  · rintro ⟨c, rest, rfl, hFirst, hRest⟩
    exact ⟨[c], ⟨c, rfl, hFirst⟩, rest, hRest, rfl⟩

/-- A row of single characters. -/
theorem mem_kstar_single : cs ∈ (single p)∗ ↔ ∀ c ∈ cs, p c := by
  rw [Language.mem_kstar]
  constructor
  · rintro ⟨row, rfl, hRow⟩ c hMem
    rcases List.mem_flatten.1 hMem with ⟨part, hPart, hInside⟩
    rcases hRow part hPart with ⟨d, rfl, hHolds⟩
    rw [List.mem_singleton.1 hInside]
    exact hHolds
  · intro hAll
    refine ⟨cs.map ([·]), ?_, ?_⟩
    · rw [← List.flatMap_def, List.flatMap_singleton']
    · intro part hPart
      rcases List.mem_map.1 hPart with ⟨c, hMem, rfl⟩
      exact ⟨c, rfl, hAll c hMem⟩

/-! ## The rules -/

/-- The rules by which texts are tokens. -/
inductive LexicalRule where
  | hex
  | decimal
  | identifier
  | openBracket
  | closeBracket
  | comma
  | colon
  | comment
  deriving DecidableEq, Repr

namespace LexicalRule

/-- The texts that match a rule. -/
def pattern : LexicalRule → Language Char
  | hex => oneOf [('0', '9')] * (oneOf [('0', '9'), ('a', 'f'), ('A', 'F')])∗ *
      oneOf [('x', 'x'), ('X', 'X')] *
        (oneOf [('0', '9'), ('a', 'f'), ('A', 'F'), ('x', 'x'), ('X', 'X')])∗
  | decimal => oneOf [('0', '9')] * (oneOf [('0', '9'), ('a', 'f'), ('A', 'F')])∗
  | identifier => oneOf [('A', 'Z'), ('a', 'z'), ('_', '_')] *
      (oneOf [('A', 'Z'), ('a', 'z'), ('0', '9'), ('_', '_')])∗
  | openBracket => {['[']}
  | closeBracket => {[']']}
  | comma => {[',']}
  | colon => {[':']}
  | comment => oneOf [('#', '#')] * (noneOf ['\r', '\n'])∗

/-- The text matches the rule. -/
def Matches (r : LexicalRule) (cs : List Char) : Prop := cs ∈ r.pattern

/-- The token that a text gives by a rule. Letter case is folded away, and an identifier
is a keyword exactly if the table of keywords has it. -/
def Gives (r : LexicalRule) (cs : List Char) (token : Token) : Prop :=
  let folded := Text.foldCase (String.ofList cs)
  match r with
  | hex => token = .hex folded
  | decimal => token = .decimal folded
  | identifier =>
    (∃ k, (folded, k) ∈ Keyword.spellings ∧ token = .ident (.keyword k)) ∨
      (∀ k, (folded, k) ∉ Keyword.spellings) ∧ token = .ident (.unknown folded)
  | openBracket => token = .openBracket
  | closeBracket => token = .closeBracket
  | comma => token = .comma
  | colon => token = .colon
  | comment => token = .comment

end LexicalRule

/-- The characters that may stand between tokens. -/
def blanks : List Char := [' ', '\t', '\r', '\n']

/-- A text begins with the token. The token is written as `lead` and followed by `rest`;
it is the longest text at the front that matches a rule, or else an illegal
character. -/
inductive Reads (lead rest : List Char) : Token → Prop where
  | rule {token : Token} (r : LexicalRule) (hMatches : r.Matches lead)
      (hLongest : ∀ (other : LexicalRule) (front : List Char), front <+: lead ++ rest →
        other.Matches front → front.length ≤ lead.length)
      (hGives : r.Gives lead token) : Reads lead rest token
  | illegal (c : Char) (hLead : lead = [c]) (hNoBlank : c ∉ blanks)
      (hNone : ∀ (other : LexicalRule) (front : List Char), front <+: lead ++ rest →
        ¬ other.Matches front) :
      Reads lead rest (.illegal (Text.foldCase (String.ofList lead)))

/-! ## Kinds of characters -/

theorem within_cons {low high : Char} {ranges : List (Char × Char)} :
    Within ((low, high) :: ranges) c ↔ low ≤ c ∧ c ≤ high ∨ Within ranges c := by
  simp only [Within, List.mem_cons, exists_eq_or_imp]

private theorem within_nil : ¬ Within [] c := by
  simp [Within]

/-- A range of one character. -/
theorem between_self : d ≤ c ∧ c ≤ d ↔ c = d :=
  ⟨fun h => Char.le_antisymm h.2 h.1, fun h => h ▸ ⟨Char.le_refl c, Char.le_refl c⟩⟩

private theorem isDigit_iff : c.isDigit = true ↔ '0' ≤ c ∧ c ≤ '9' := by
  show (decide ('0' ≤ c) && decide (c ≤ '9')) = true ↔ _
  rw [Bool.and_eq_true, decide_eq_true_iff, decide_eq_true_iff]

private theorem isUpper_iff : c.isUpper = true ↔ 'A' ≤ c ∧ c ≤ 'Z' := decide_eq_true_iff

private theorem isLower_iff : c.isLower = true ↔ 'a' ≤ c ∧ c ≤ 'z' := by
  show (decide ('a' ≤ c) && decide (c ≤ 'z')) = true ↔ _
  rw [Bool.and_eq_true, decide_eq_true_iff, decide_eq_true_iff]

private theorem isAlpha_iff : c.isAlpha = true ↔ 'A' ≤ c ∧ c ≤ 'Z' ∨ 'a' ≤ c ∧ c ≤ 'z' := by
  rw [← isUpper_iff, ← isLower_iff]
  exact Bool.or_eq_true_iff

private theorem within_digit : Within [('0', '9')] c ↔ c.isDigit = true := by
  simp only [within_cons, within_nil, or_false, isDigit_iff]

private theorem within_mark : Within [('x', 'x'), ('X', 'X')] c ↔ isRadixMark c = true := by
  simp only [within_cons, within_nil, or_false, between_self, isRadixMark, Bool.or_eq_true,
    decide_eq_true_eq]

theorem within_numeric :
    Within [('0', '9'), ('a', 'f'), ('A', 'F'), ('x', 'x'), ('X', 'X')] c ↔
      isNumeric c = true := by
  simp only [within_cons, within_nil, or_false, between_self, isNumeric, isRadixMark, isDigit_iff,
    Bool.or_eq_true, Bool.and_eq_true, decide_eq_true_eq, or_assoc]

/-- The characters of hexadecimal numbers but the `x`. -/
theorem within_hexDigit :
    Within [('0', '9'), ('a', 'f'), ('A', 'F')] c ↔
      isNumeric c = true ∧ isRadixMark c = false := by
  constructor
  · intro hWithin
    have hNumeric : Within [('0', '9'), ('a', 'f'), ('A', 'F'), ('x', 'x'), ('X', 'X')] c := by
      rcases hWithin with ⟨range, hMem, hRange⟩
      exact ⟨range, List.mem_append_left [('x', 'x'), ('X', 'X')] hMem, hRange⟩
    refine ⟨within_numeric.1 hNumeric, ?_⟩
    rw [Bool.eq_false_iff]
    intro hMark
    simp only [isRadixMark, Bool.or_eq_true, decide_eq_true_eq] at hMark
    rcases hMark with rfl | rfl
    · revert hWithin
      simp only [within_cons, within_nil, or_false]
      decide
    · revert hWithin
      simp only [within_cons, within_nil, or_false]
      decide
  · rintro ⟨hNumeric, hNoMark⟩
    have hWithin := within_numeric.2 hNumeric
    have hOutside : ¬ Within [('x', 'x'), ('X', 'X')] c := by
      rw [within_mark, hNoMark]
      decide
    simp only [within_cons, within_nil, or_false] at hWithin hOutside ⊢
    tauto

theorem within_wordStart : Within [('A', 'Z'), ('a', 'z'), ('_', '_')] c ↔
    isWordStart c = true := by
  simp only [within_cons, within_nil, or_false, between_self, isWordStart, Bool.or_eq_true,
    isAlpha_iff, decide_eq_true_eq, or_assoc]

private theorem within_wordPart : Within [('A', 'Z'), ('a', 'z'), ('0', '9'), ('_', '_')] c ↔
    isWordPart c = true := by
  simp only [within_cons, within_nil, or_false, between_self, isWordPart, Char.isAlphanum,
    Bool.or_eq_true, isAlpha_iff, isDigit_iff, decide_eq_true_eq, or_assoc]

private theorem notMem_lineEnds : c ∉ ['\r', '\n'] ↔ isLineEnd c = false := by
  simp [isLineEnd]

theorem mem_blanks_iff : c ∈ blanks ↔ isSeparator c = true := by
  simp [blanks, isSeparator, or_assoc]

/-! ## What matches a rule -/

namespace LexicalRule

variable {r : LexicalRule}

/-- A text that matches the rule can begin with the character. -/
def begins (r : LexicalRule) (c : Char) : Bool :=
  match r with
  | hex | decimal => c.isDigit
  | identifier => isWordStart c
  | openBracket => c = '['
  | closeBracket => c = ']'
  | comma => c = ','
  | colon => c = ':'
  | comment => c = '#'

/-- The characters that can follow the first one in a text that matches the rule. -/
def continues (r : LexicalRule) (c : Char) : Bool :=
  match r with
  | hex | decimal => isNumeric c
  | identifier => isWordPart c
  | openBracket | closeBracket | comma | colon => false
  | comment => !isLineEnd c

theorem matches_decimal_iff : decimal.Matches cs ↔
    ∃ c ds, cs = c :: ds ∧ c.isDigit = true ∧
      ∀ d ∈ ds, isNumeric d = true ∧ isRadixMark d = false := by
  simp only [Matches, pattern, oneOf, mem_single_mul, mem_kstar_single, within_digit,
    within_hexDigit]

theorem matches_identifier_iff : identifier.Matches cs ↔
    ∃ c ds, cs = c :: ds ∧ isWordStart c = true ∧ ∀ d ∈ ds, isWordPart d = true := by
  simp only [Matches, pattern, oneOf, mem_single_mul, mem_kstar_single, within_wordStart,
    within_wordPart]

private theorem matches_comment_iff : comment.Matches cs ↔
    ∃ ds, cs = '#' :: ds ∧ ∀ d ∈ ds, isLineEnd d = false := by
  simp only [Matches, pattern, oneOf, noneOf, mem_single_mul, mem_kstar_single, within_cons,
    within_nil, or_false, between_self, notMem_lineEnds]
  constructor
  · rintro ⟨c, ds, rfl, rfl, hRest⟩
    exact ⟨ds, rfl, hRest⟩
  · rintro ⟨ds, rfl, hRest⟩
    exact ⟨'#', ds, rfl, rfl, hRest⟩

/-- What follows the first digit of a hexadecimal number. -/
theorem mem_marked_iff : cs ∈ (oneOf [('0', '9'), ('a', 'f'), ('A', 'F')])∗ *
    (oneOf [('x', 'x'), ('X', 'X')] *
      (oneOf [('0', '9'), ('a', 'f'), ('A', 'F'), ('x', 'x'), ('X', 'X')])∗) ↔
    (∀ d ∈ cs, isNumeric d = true) ∧ ∃ d ∈ cs, isRadixMark d = true := by
  rw [Language.mem_mul]
  simp only [oneOf, mem_single_mul, mem_kstar_single, within_hexDigit, within_mark,
    within_numeric]
  constructor
  · rintro ⟨front, hFront, _, ⟨mark, back, rfl, hMark, hBack⟩, rfl⟩
    have hNumeric : isNumeric mark = true := by simp [isNumeric, hMark]
    refine ⟨?_, mark, by simp, hMark⟩
    rw [List.forall_mem_append, List.forall_mem_cons]
    exact ⟨fun d hMem => (hFront d hMem).1, hNumeric, hBack⟩
  · rintro ⟨hNumeric, hMarked⟩
    -- The first mark parts the digits in front of it from what follows.
    rcases Option.isSome_iff_exists.1 (List.find?_isSome.2 hMarked) with ⟨mark, hFirst⟩
    rcases List.find?_eq_some_iff_append.1 hFirst with ⟨hMark, front, back, rfl, hFront⟩
    rw [List.forall_mem_append, List.forall_mem_cons] at hNumeric
    refine ⟨front, fun d hMem => ⟨hNumeric.1 d hMem, ?_⟩, _,
      ⟨mark, back, rfl, hMark, hNumeric.2.2⟩, rfl⟩
    simpa using hFront d hMem

/-- A number is hexadecimal as soon as there is an `x` in it. -/
theorem matches_hex_iff : hex.Matches cs ↔
    ∃ c ds, cs = c :: ds ∧ c.isDigit = true ∧ (∀ d ∈ ds, isNumeric d = true) ∧
      ∃ d ∈ ds, isRadixMark d = true := by
  simp only [Matches, pattern, mul_assoc]
  rw [oneOf, mem_single_mul]
  simp only [within_digit, mem_marked_iff]

/-- What matches a rule begins and continues as the rule says. -/
theorem exists_cons_of_matches (hMatches : r.Matches cs) :
    ∃ c ds, cs = c :: ds ∧ r.begins c = true ∧ ∀ d ∈ ds, r.continues d = true := by
  cases r with
  | hex =>
      rcases matches_hex_iff.1 hMatches with ⟨c, ds, hSplit, hDigit, hNumeric, -⟩
      exact ⟨c, ds, hSplit, hDigit, hNumeric⟩
  | decimal =>
      rcases matches_decimal_iff.1 hMatches with ⟨c, ds, hSplit, hDigit, hDigits⟩
      exact ⟨c, ds, hSplit, hDigit, fun d hMem => (hDigits d hMem).1⟩
  | identifier => exact matches_identifier_iff.1 hMatches
  | openBracket | closeBracket | comma | colon =>
      exact ⟨_, [], hMatches, by decide, fun d hMem => absurd hMem List.not_mem_nil⟩
  | comment =>
      rcases matches_comment_iff.1 hMatches with ⟨ds, hSplit, hRest⟩
      refine ⟨'#', ds, hSplit, by decide, fun d hMem => ?_⟩
      simp only [continues, hRest d hMem, Bool.not_false]

/-! ## The longest match -/

theorem takeWhile_none (cs : List Char) : cs.takeWhile (fun _ => false) = [] := by
  cases cs <;> rfl

/-- Where a rule can begin, the reader takes in all that can continue it. -/
theorem lexeme_of_begins (hBegins : r.begins c = true) (cs : List Char) :
    lexeme (c :: cs) = c :: cs.takeWhile r.continues := by
  cases r with
  | hex | decimal => exact if_pos hBegins
  | identifier =>
      have hDigit := isDigit_of_isWordStart hBegins
      rw [lexeme, hDigit, if_neg (by decide)]
      exact if_pos hBegins
  | openBracket | closeBracket | comma | colon =>
      obtain rfl := of_decide_eq_true hBegins
      show _ = _ :: cs.takeWhile (fun _ => false)
      rw [takeWhile_none]
      rfl
  | comment =>
      obtain rfl := of_decide_eq_true hBegins
      rfl

/-- No text at the front is longer than what the reader takes off and matches a rule. -/
theorem length_le_of_matches {front : List Char} (hFront : front <+: c :: cs)
    (hMatches : r.Matches front) : front.length ≤ (lexeme (c :: cs)).length := by
  rcases exists_cons_of_matches hMatches with ⟨d, ds, rfl, hBegins, hContinues⟩
  rcases List.cons_prefix_cons.1 hFront with ⟨rfl, rest, rfl⟩
  rw [lexeme_of_begins hBegins, List.takeWhile_append_of_pos hContinues]
  simp

/-- Where a rule can begin, what the reader takes off matches a rule: this one, or the
other rule for numbers. -/
theorem exists_matches_lexeme (hBegins : r.begins c = true) (cs : List Char) :
    ∃ other : LexicalRule, other.Matches (lexeme (c :: cs)) := by
  have hContinues : ∀ d ∈ cs.takeWhile r.continues, r.continues d = true :=
    List.all_eq_true.1 List.all_takeWhile
  rw [lexeme_of_begins hBegins]
  have hSame (hMatches : r.Matches (c :: cs.takeWhile r.continues)) :
      ∃ other : LexicalRule, other.Matches (c :: cs.takeWhile r.continues) := ⟨r, hMatches⟩
  have hNumber (hDigit : c.isDigit = true)
      (hNumeric : ∀ d ∈ cs.takeWhile r.continues, isNumeric d = true) :
      ∃ other : LexicalRule, other.Matches (c :: cs.takeWhile r.continues) := by
    by_cases hMark : ∃ d ∈ cs.takeWhile r.continues, isRadixMark d = true
    · exact ⟨hex, matches_hex_iff.2 ⟨c, _, rfl, hDigit, hNumeric, hMark⟩⟩
    · refine ⟨decimal, matches_decimal_iff.2 ⟨c, _, rfl, hDigit, fun d hMem => ?_⟩⟩
      refine ⟨hNumeric d hMem, ?_⟩
      rw [Bool.eq_false_iff]
      exact fun hHere => hMark ⟨d, hMem, hHere⟩
  cases r with
  | hex | decimal => exact hNumber hBegins hContinues
  | identifier => exact hSame (matches_identifier_iff.2 ⟨c, _, rfl, hBegins, hContinues⟩)
  | openBracket | closeBracket | comma | colon =>
      obtain rfl := of_decide_eq_true hBegins
      refine hSame ?_
      show _ :: cs.takeWhile (fun _ => false) = [_]
      rw [takeWhile_none]
  | comment =>
      obtain rfl := of_decide_eq_true hBegins
      refine hSame (matches_comment_iff.2 ⟨_, rfl, fun d hMem => ?_⟩)
      simpa [continues] using hContinues d hMem

/-! ## The token of a match -/

/-- A word is looked up under exactly the keywords that the table has for it. -/
theorem mem_spellings_iff {word : String} {k : Keyword} :
    (word, k) ∈ Keyword.spellings ↔ Keyword.spellings.lookup word = some k := by
  have hFound : ∀ entry ∈ Keyword.spellings,
      Keyword.spellings.lookup entry.1 = some entry.2 := by decide +kernel
  constructor
  · exact hFound (word, k)
  · intro hLookup
    rcases List.lookup_eq_some_iff.1 hLookup with ⟨front, back, hSplit, -⟩
    rw [hSplit]
    simp

/-- The token of a lexeme is the one that the rule gives. -/
theorem gives_ofLexeme (hMatches : r.Matches cs) : r.Gives cs (Token.ofLexeme cs) := by
  cases r with
  | hex =>
      rcases matches_hex_iff.1 hMatches with ⟨c, ds, rfl, hDigit, -, mark, hMem, hMark⟩
      have hMarked : (c :: ds).any isRadixMark = true :=
        List.any_eq_true.2 ⟨mark, List.mem_cons_of_mem c hMem, hMark⟩
      simp only [Gives, Token.ofLexeme, hDigit, hMarked, if_true]
  | decimal =>
      rcases matches_decimal_iff.1 hMatches with ⟨c, ds, rfl, hDigit, hDigits⟩
      have hUnmarked : (c :: ds).any isRadixMark = false := by
        rw [List.any_cons, isRadixMark_of_isDigit hDigit, Bool.false_or, List.any_eq_false]
        exact fun d hMem => by simp [(hDigits d hMem).2]
      simp only [Gives, Token.ofLexeme, hDigit, hUnmarked, if_true]
      rfl
  | identifier =>
      rcases matches_identifier_iff.1 hMatches with ⟨c, ds, rfl, hWord, -⟩
      simp only [Gives, Token.ofLexeme, isDigit_of_isWordStart hWord, hWord, if_true,
        Ident.ofString, mem_spellings_iff]
      cases Keyword.spellings.lookup (Text.foldCase (String.ofList (c :: ds))) with
      | none => exact .inr ⟨by simp, rfl⟩
      | some k => exact .inl ⟨k, rfl, rfl⟩
  | openBracket | closeBracket | comma | colon =>
      obtain rfl : cs = [_] := hMatches
      rfl
  | comment =>
      rcases matches_comment_iff.1 hMatches with ⟨ds, rfl, -⟩
      rfl

/-- No blank belongs to a token but a comment. -/
theorem notMem_blanks_of_matches (hRule : r ≠ comment) (hMatches : r.Matches cs) :
    ∀ c ∈ cs, c ∉ blanks := by
  have hBegins (c : Char) (hBlank : c ∈ blanks) : r.begins c = false := by
    rcases of_isSeparator (mem_blanks_iff.1 hBlank) with rfl | rfl | rfl | rfl <;>
      cases r <;> rfl
  have hContinues (c : Char) (hBlank : c ∈ blanks) : r.continues c = false := by
    cases r with
    | comment => exact absurd rfl hRule
    | _ => rcases of_isSeparator (mem_blanks_iff.1 hBlank) with rfl | rfl | rfl | rfl <;> rfl
  rcases exists_cons_of_matches hMatches with ⟨c, ds, rfl, hFirst, hRest⟩
  rw [List.forall_mem_cons]
  refine ⟨fun hBlank => ?_, fun d hMem hBlank => ?_⟩
  · rw [hBegins c hBlank] at hFirst
    cases hFirst
  · have hHere := hRest d hMem
    rw [hContinues d hBlank] at hHere
    cases hHere

/-- Where no rule can begin, a single character is taken off. -/
theorem lexeme_of_forall_begins (hNone : ∀ r : LexicalRule, r.begins c = false)
    (cs : List Char) : lexeme (c :: cs) = [c] := by
  have hDigit : c.isDigit = false := hNone decimal
  have hWord : isWordStart c = false := hNone identifier
  have hMark : ¬ c = '#' := of_decide_eq_false (hNone comment)
  simp [lexeme, hDigit, hWord, hMark]

/-- Its token is illegal. -/
theorem ofLexeme_of_forall_begins (hNone : ∀ r : LexicalRule, r.begins c = false) :
    Token.ofLexeme [c] = .illegal (Text.foldCase (String.ofList [c])) := by
  have hDigit : c.isDigit = false := hNone decimal
  have hWord : isWordStart c = false := hNone identifier
  have hMark : ¬ c = '#' := of_decide_eq_false (hNone comment)
  have hOpen : ¬ c = '[' := of_decide_eq_false (hNone openBracket)
  have hClose : ¬ c = ']' := of_decide_eq_false (hNone closeBracket)
  have hComma : ¬ c = ',' := of_decide_eq_false (hNone comma)
  have hColon : ¬ c = ':' := of_decide_eq_false (hNone colon)
  simp [Token.ofLexeme, hDigit, hWord, hMark, hOpen, hClose, hComma, hColon]

end LexicalRule

/-! ## The next token -/

/-- The reader takes off the longest match, or an illegal character. -/
theorem reads_lexeme (hBlank : ¬ isSeparator c = true) (cs : List Char) :
    Reads (lexeme (c :: cs)) ((c :: cs).drop (lexeme (c :: cs)).length)
      (Token.ofLexeme (lexeme (c :: cs))) := by
  have hWhole := lexeme_append_drop (c :: cs)
  by_cases hBegins : ∃ r : LexicalRule, r.begins c = true
  · rcases hBegins with ⟨r, hBegins⟩
    rcases LexicalRule.exists_matches_lexeme hBegins cs with ⟨other, hMatches⟩
    refine .rule other hMatches ?_ (LexicalRule.gives_ofLexeme hMatches)
    rw [hWhole]
    exact fun _ _ => LexicalRule.length_le_of_matches
  · have hNone (r : LexicalRule) : r.begins c = false := by
      rw [Bool.eq_false_iff]
      exact fun hHere => hBegins ⟨r, hHere⟩
    have hSingle := LexicalRule.lexeme_of_forall_begins hNone cs
    rw [hSingle, LexicalRule.ofLexeme_of_forall_begins hNone]
    refine .illegal c rfl (fun hMem => hBlank (mem_blanks_iff.1 hMem)) ?_
    rw [← hSingle, hWhole]
    intro other front hFront hMatches
    rcases LexicalRule.exists_cons_of_matches hMatches with ⟨d, ds, rfl, hOther, -⟩
    rcases List.cons_prefix_cons.1 hFront with ⟨rfl, -⟩
    exact hBegins ⟨other, hOther⟩

/-! ## What a token tells about its text -/

/-- The text that a token carries, if it carries one. -/
def Token.literal? : Token → Option String
  | .hex digits | .decimal digits => some digits
  | .ident (.unknown name) | .labelDef name | .labelRef name => some name
  | .illegal symbol => some symbol
  | _ => none

private theorem mem_marks_iff : 'x' ∈ cs ∨ 'X' ∈ cs ↔ ∃ c ∈ cs, isRadixMark c = true := by
  constructor
  · rintro (hSmall | hCapital)
    · exact ⟨'x', hSmall, rfl⟩
    · exact ⟨'X', hCapital, rfl⟩
  · rintro ⟨c, hMem, hMark⟩
    simp only [isRadixMark, Bool.or_eq_true, decide_eq_true_eq] at hMark
    rcases hMark with rfl | rfl
    · exact .inl hMem
    · exact .inr hMem

namespace Reads

variable {lead rest : List Char} {token : Token}

/-- What a token carries is its text with the letter case folded away. -/
theorem literal {text : String} (hReads : Reads lead rest token)
    (hLiteral : token.literal? = some text) : text = Text.foldCase (String.ofList lead) := by
  cases hReads with
  | rule r hMatches hLongest hGives =>
      cases r with
      | hex | decimal =>
          obtain rfl := hGives
          exact (Option.some.inj hLiteral).symm
      | identifier =>
          rcases hGives with ⟨k, -, rfl⟩ | ⟨-, rfl⟩
          · cases hLiteral
          · exact (Option.some.inj hLiteral).symm
      | openBracket | closeBracket | comma | colon | comment =>
          obtain rfl := hGives
          cases hLiteral
  | illegal => exact (Option.some.inj hLiteral).symm

/-- A number is hexadecimal exactly if there is an `x` in it. -/
theorem hex_iff {digits : String} (hReads : Reads lead rest token)
    (hNumber : token = .hex digits ∨ token = .decimal digits) :
    token = .hex digits ↔ 'x' ∈ lead ∨ 'X' ∈ lead := by
  rw [mem_marks_iff]
  cases hReads with
  | rule r hMatches hLongest hGives =>
      cases r with
      | hex =>
          rcases LexicalRule.matches_hex_iff.1 hMatches with
            ⟨c, ds, rfl, -, -, mark, hMem, hMark⟩
          have hHex : token = .hex digits := by
            obtain rfl := hGives
            simpa using hNumber
          exact iff_of_true hHex ⟨mark, List.mem_cons_of_mem c hMem, hMark⟩
      | decimal =>
          rcases LexicalRule.matches_decimal_iff.1 hMatches with ⟨c, ds, rfl, hDigit, hDigits⟩
          have hDecimal : token ≠ .hex digits := by
            obtain rfl := hGives
            exact Token.noConfusion
          refine iff_of_false hDecimal ?_
          rintro ⟨d, hMem, hMark⟩
          have hNoMark : isRadixMark d = false := by
            rcases List.mem_cons.1 hMem with rfl | hRest
            · exact isRadixMark_of_isDigit hDigit
            · exact (hDigits d hRest).2
          rw [hNoMark] at hMark
          cases hMark
      | identifier =>
          rcases hGives with ⟨k, -, rfl⟩ | ⟨-, rfl⟩ <;> simp at hNumber
      | openBracket | closeBracket | comma | colon | comment =>
          obtain rfl := hGives
          simp at hNumber
  | illegal => simp at hNumber

/-- A token is illegal exactly if no text at the front matches a rule. -/
theorem illegal_iff (hReads : Reads lead rest token) :
    (∃ symbol, token = .illegal symbol) ↔
      ∀ (r : LexicalRule) (front : List Char), front <+: lead ++ rest → ¬ r.Matches front := by
  cases hReads with
  | rule r hMatches hLongest hGives =>
      refine iff_of_false ?_ fun hNone => hNone r lead (List.prefix_append lead rest) hMatches
      rintro ⟨symbol, rfl⟩
      cases r with
      | identifier => rcases hGives with ⟨k, -, hToken⟩ | ⟨-, hToken⟩ <;> cases hToken
      | hex | decimal | openBracket | closeBracket | comma | colon | comment => cases hGives
  | illegal c hLead hNoBlank hNone => exact iff_of_true ⟨_, rfl⟩ hNone

/-- An illegal token is one character. -/
theorem exists_single_of_illegal {symbol : String} (hReads : Reads lead rest (.illegal symbol)) :
    ∃ c, lead = [c] := by
  generalize hToken : Token.illegal symbol = token at hReads
  have hNone := (illegal_iff hReads).1 ⟨symbol, hToken.symm⟩
  cases hReads with
  | rule r hMatches => exact absurd hMatches (hNone r lead (List.prefix_append lead rest))
  | illegal c hLead => exact ⟨c, hLead⟩

/-- An identifier is a keyword exactly if the table of keywords has its text. -/
theorem keyword_iff {k : Keyword} (hReads : Reads lead rest token) :
    token = .ident (.keyword k) ↔ (∃ id, token = .ident id) ∧
      (Text.foldCase (String.ofList lead), k) ∈ Keyword.spellings := by
  refine ⟨?_, ?_⟩
  · rintro rfl
    refine ⟨⟨_, rfl⟩, ?_⟩
    cases hReads with
    | rule r hMatches hLongest hGives =>
        cases r with
        | identifier =>
            rcases hGives with ⟨k', hMem, hToken⟩ | ⟨-, hToken⟩
            · cases hToken
              exact hMem
            · cases hToken
        | hex | decimal | openBracket | closeBracket | comma | colon | comment => cases hGives
  · rintro ⟨⟨id, rfl⟩, hMem⟩
    cases hReads with
    | rule r hMatches hLongest hGives =>
        cases r with
        | identifier =>
            rcases hGives with ⟨k', hMem', hToken⟩ | ⟨hNone, -⟩
            · rw [LexicalRule.mem_spellings_iff] at hMem hMem'
              rw [hToken, Option.some.inj (hMem'.symm.trans hMem)]
            · exact absurd hMem (hNone k)
        | hex | decimal | openBracket | closeBracket | comma | colon | comment => cases hGives

/-- The register `I` has two spellings. -/
theorem index_iff (hReads : Reads lead rest token) :
    token = .ident (.keyword (.special .index)) ↔ (∃ id, token = .ident id) ∧
      (Text.foldCase (String.ofList lead) = "adp" ∨ Text.foldCase (String.ofList lead) = "i") := by
  rw [keyword_iff hReads]
  simp [Keyword.spellings]

/-- Blanks in tokens are in comments. -/
theorem notMem_blanks (hReads : Reads lead rest token) (hToken : token ≠ .comment) :
    ∀ c ∈ lead, c ∉ blanks := by
  cases hReads with
  | rule r hMatches hLongest hGives =>
      refine LexicalRule.notMem_blanks_of_matches ?_ hMatches
      rintro rfl
      exact hToken hGives
  | illegal c hLead hNoBlank =>
      rw [hLead, List.forall_mem_singleton]
      exact hNoBlank

/-- The end of the text is not found in the text. -/
theorem ne_endOfInput (hReads : Reads lead rest token) : token ≠ .endOfInput := by
  rintro rfl
  cases hReads with
  | rule r hMatches hLongest hGives =>
      cases r with
      | identifier => rcases hGives with ⟨k, -, hToken⟩ | ⟨-, hToken⟩ <;> cases hToken
      | hex | decimal | openBracket | closeBracket | comma | colon | comment => cases hGives

end Reads

end Chip8.Asm

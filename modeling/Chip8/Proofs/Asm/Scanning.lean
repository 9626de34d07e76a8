import Chip8.Asm.Lexeme

/-!
# The tokens of a text, piece by piece

Where a token begins in a text does not matter for what it is. So the tokens of a text
can be taken off at the front one after the other: a separator gives none, punctuation
gives one whatever follows it, and a word or a number gives one if no character follows
that it could take in (`Ends`).

## Main definitions

* `tokenRow` — the tokens of a text without their places.
* `Ends` — a text continues neither a word nor a number.

## Main results

* `tokenRow_separator`, `tokenRow_punctuation`, `tokenRow_word`, `tokenRow_number`.
-/

namespace Chip8.Asm

/-- The tokens of a text without their places. -/
def tokenRow (cs : List Char) : List Token := (scanFrom 0 cs).map (·.token)

/-- The tokens do not depend on where the text begins. -/
theorem map_token_scanFrom (start : Nat) (cs : List Char) :
    (scanFrom start cs).map (·.token) = tokenRow cs := by
  have hBoth : ∀ start start', (scanFrom start cs).map (·.token) =
      (scanFrom start' cs).map (·.token) := by
    intro start
    fun_induction scanFrom start cs with
    | case1 start => intro start'; simp [scanFrom]
    | case2 start c cs hc ih =>
        intro start'
        rw [scanFrom, if_pos hc]
        exact ih _
    | case3 start c cs hc lead stop ih =>
        intro start'
        rw [scanFrom, if_neg hc]
        simp only [List.map_cons]
        exact congrArg _ (ih _)
  exact hBoth start 0

@[simp] theorem tokenRow_nil : tokenRow [] = [] := by
  simp [tokenRow, scanFrom]

/-- A separator is skipped. -/
theorem tokenRow_separator {c : Char} (hc : isSeparator c) (cs : List Char) :
    tokenRow (c :: cs) = tokenRow cs := by
  rw [tokenRow, scanFrom, if_pos hc, map_token_scanFrom]

/-- What is no separator begins with a lexeme. -/
theorem tokenRow_lexeme {c : Char} (hc : ¬ isSeparator c) (cs : List Char) :
    tokenRow (c :: cs) = .ofLexeme (lexeme (c :: cs)) ::
      tokenRow ((c :: cs).drop (lexeme (c :: cs)).length) := by
  rw [tokenRow, scanFrom, if_neg hc]
  simp only [List.map_cons, map_token_scanFrom]

/-- The characters that are tokens by themselves. -/
def punctuation? : Char → Option Token
  | '[' => some .openBracket
  | ']' => some .closeBracket
  | ',' => some .comma
  | ':' => some .colon
  | _ => none

/-- Punctuation is a token, whatever follows it. -/
theorem tokenRow_punctuation {c : Char} {t : Token} (hc : punctuation? c = some t)
    (cs : List Char) : tokenRow (c :: cs) = t :: tokenRow cs := by
  unfold punctuation? at hc
  split at hc
  all_goals
    first
    | obtain rfl := Option.some.inj hc
      rw [tokenRow_lexeme (by decide)]
      rfl
    | simp at hc

/-- The text continues neither a word nor a number. -/
def Ends (cs : List Char) : Prop := ∀ c ∈ cs.head?, isWordPart c = false ∧ isNumeric c = false

theorem ends_nil : Ends [] := by simp [Ends]

theorem ends_cons {c : Char} {cs : List Char} :
    Ends (c :: cs) ↔ isWordPart c = false ∧ isNumeric c = false := by
  simp [Ends]

/-- What is taken from the front of a text stops where another kind of character
follows. -/
theorem takeWhile_append_of_stop {p : Char → Bool} {cs rest : List Char} (hcs : ∀ c ∈ cs, p c)
    (hRest : ∀ c ∈ rest.head?, p c = false) : (cs ++ rest).takeWhile p = cs := by
  rw [List.takeWhile_append_of_pos hcs]
  cases rest with
  | nil => simp
  | cons c rest => simp [hRest c rfl]

/-- A lexeme and the rest of the text. -/
theorem tokenRow_of_lexeme {c : Char} {cs rest : List Char} (hc : ¬ isSeparator c)
    (hLexeme : lexeme (c :: cs ++ rest) = c :: cs) :
    tokenRow (c :: cs ++ rest) = .ofLexeme (c :: cs) :: tokenRow rest := by
  rw [List.cons_append] at hLexeme ⊢
  rw [tokenRow_lexeme hc, hLexeme, ← List.cons_append, List.drop_left]

theorem of_isSeparator {c : Char} (h : isSeparator c) :
    c = ' ' ∨ c = '\t' ∨ c = '\r' ∨ c = '\n' := by
  simpa [isSeparator, or_assoc] using h

/-- No word begins with a digit. -/
theorem isDigit_of_isWordStart {c : Char} (h : isWordStart c) : c.isDigit = false := by
  rw [Bool.eq_false_iff]
  intro hDigit
  obtain ⟨hLow, hHigh⟩ := Char.isDigit_iff_toNat.1 hDigit
  simp only [Char.reduceToNat] at hLow hHigh
  rcases Bool.or_eq_true _ _ ▸ h with hAlpha | hUnderscore
  · rcases Bool.or_eq_true _ _ ▸ hAlpha with hUpper | hLower
    · have hA : 'A'.val ≤ c.val := by
        have hRange : c.val ≥ 'A'.val ∧ c.val ≤ 'Z'.val := of_decide_eq_true hUpper
        exact hRange.1
      have hCode : 65 ≤ c.toNat := UInt32.le_iff_toNat_le.1 hA
      omega
    · have ha : 'a'.val ≤ c.val := by
        have hRange := Bool.and_eq_true _ _ ▸ show
          (decide (c.val ≥ 'a'.val) && decide (c.val ≤ 'z'.val)) = true from hLower
        exact of_decide_eq_true hRange.1
      have hCode : 97 ≤ c.toNat := UInt32.le_iff_toNat_le.1 ha
      omega
  · obtain rfl : c = '_' := by simpa using hUnderscore
    exact absurd hDigit (by decide)

/-- No digit marks a number as hexadecimal. -/
theorem isRadixMark_of_isDigit {c : Char} (h : c.isDigit) : isRadixMark c = false := by
  rw [Bool.eq_false_iff]
  intro hMark
  rcases Bool.or_eq_true _ _ ▸ hMark with hx | hx <;>
    exact absurd (of_decide_eq_true hx ▸ h) (by decide)

/-- A word is a token if it ends where the rest begins. -/
theorem tokenRow_word {c : Char} {cs rest : List Char} (hc : isWordStart c)
    (hcs : ∀ d ∈ cs, isWordPart d) (hRest : Ends rest) :
    tokenRow (c :: cs ++ rest) =
      .ident (.ofString (String.ofList (c :: cs))) :: tokenRow rest := by
  have hDigit := isDigit_of_isWordStart hc
  have hSeparator : ¬ isSeparator c := by
    intro h
    rcases of_isSeparator h with rfl | rfl | rfl | rfl <;> exact absurd hc (by decide)
  have hLexeme : lexeme (c :: cs ++ rest) = c :: cs := by
    rw [List.cons_append, lexeme, hDigit, if_neg (by simp), if_pos hc,
      takeWhile_append_of_stop hcs fun d hd => (hRest d hd).1]
  rw [tokenRow_of_lexeme hSeparator hLexeme, Token.ofLexeme]
  simp [hDigit, hc]

/-- A number is a token if it ends where the rest begins. -/
theorem tokenRow_number {c : Char} {cs rest : List Char} (hc : c.isDigit)
    (hcs : ∀ d ∈ cs, isNumeric d) (hRest : Ends rest) :
    tokenRow (c :: cs ++ rest) =
      (if (c :: cs).any isRadixMark then .hex (Text.foldCase (String.ofList (c :: cs)))
        else .decimal (Text.foldCase (String.ofList (c :: cs)))) :: tokenRow rest := by
  have hSeparator : ¬ isSeparator c := by
    intro h
    rcases of_isSeparator h with rfl | rfl | rfl | rfl <;> exact absurd hc (by decide)
  have hLexeme : lexeme (c :: cs ++ rest) = c :: cs := by
    rw [List.cons_append, lexeme, if_pos hc,
      takeWhile_append_of_stop hcs fun d hd => (hRest d hd).2]
  rw [tokenRow_of_lexeme hSeparator hLexeme, Token.ofLexeme]
  simp only [hc, if_true]

end Chip8.Asm

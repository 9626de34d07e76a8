import Chip8.Asm.ObjectFile
import Chip8.Proofs.Asm.Resolver
import Chip8.Proofs.Text.Folding

/-!
# Letter case in source texts

Nothing that is assembled depends on letter case, and neither does what is said about a
text that cannot be assembled: names, numbers and illegal characters are kept in their
folded form, and places are counted in bytes, of which a letter takes one in either
case.

It is the reader of tokens alone that sees the characters of a text. All that it asks of
a character is to which kinds it belongs, and each of these kinds has a letter in both
cases or in none. Folding a text therefore folds its lexemes one by one, and as a token
holds the folded form of its lexeme, the tokens of a text are those of the folded text.

## Main results

* `lexeme_map_toLower`, `Token.ofLexeme_map_toLower` — lexemes and their tokens.
* `scan_foldCase` — the tokens of a text and their places.
* `ObjectFile.ofSource_eq_of_foldCase_eq` — what is assembled.
-/

namespace Chip8

namespace Asm

open Text

/-! ## Kinds of characters -/

theorem isSeparator_toLower (c : Char) : isSeparator c.toLower = isSeparator c :=
  apply_toLower (by decide) c

private theorem isLineEnd_toLower (c : Char) : isLineEnd c.toLower = isLineEnd c :=
  apply_toLower (by decide) c

private theorem isRadixMark_toLower (c : Char) : isRadixMark c.toLower = isRadixMark c :=
  apply_toLower (by decide) c

private theorem isDigit_toLower (c : Char) : c.toLower.isDigit = c.isDigit :=
  apply_toLower (p := Char.isDigit) (by decide) c

private theorem isNumeric_toLower (c : Char) : isNumeric c.toLower = isNumeric c :=
  apply_toLower (by decide) c

private theorem isWordStart_toLower (c : Char) : isWordStart c.toLower = isWordStart c :=
  apply_toLower (by decide) c

private theorem isWordPart_toLower (c : Char) : isWordPart c.toLower = isWordPart c :=
  apply_toLower (by decide) c

/-- No other character becomes a mark, which is no letter. -/
theorem toLower_eq_mark_iff (mark : Char) (hMark : mark.toNat < 97)
    (hFolded : mark.toLower = mark) (c : Char) : c.toLower = mark ↔ c = mark := by
  constructor
  · exact eq_of_toLower_eq hMark
  · rintro rfl
    exact hFolded

/-! ## Lexemes and tokens -/

/-- The lexeme of a folded text is folded. -/
theorem lexeme_map_toLower (cs : List Char) :
    lexeme (cs.map Char.toLower) = (lexeme cs).map Char.toLower := by
  cases cs with
  | nil => rfl
  | cons c cs =>
      have hNumber := takeWhile_map_toLower isNumeric_toLower cs
      have hWord := takeWhile_map_toLower isWordPart_toLower cs
      have hComment := takeWhile_map_toLower (p := fun d => !isLineEnd d)
        (fun d => congrArg (!·) (isLineEnd_toLower d)) cs
      simp only [List.map_cons, lexeme, isDigit_toLower, isWordStart_toLower,
        toLower_eq_mark_iff '#' (by decide) rfl, hNumber, hWord, hComment]
      split
      · rfl
      · split
        · rfl
        · split <;> rfl

/-- A token holds the folded form of its lexeme, if it holds it at all. -/
theorem Token.ofLexeme_map_toLower (lead : List Char) :
    Token.ofLexeme (lead.map Char.toLower) = Token.ofLexeme lead := by
  cases lead with
  | nil => rfl
  | cons c cs =>
      have hText : String.ofList ((c :: cs).map Char.toLower) =
          Text.foldCase (String.ofList (c :: cs)) := by
        rw [← String.toList_inj, toList_foldCase, String.toList_ofList, String.toList_ofList]
      have hHex : ((c :: cs).map Char.toLower).any isRadixMark = (c :: cs).any isRadixMark := by
        rw [List.any_map]
        exact congrArg (List.any _) (funext isRadixMark_toLower)
      rw [List.map_cons] at hText hHex ⊢
      simp only [ofLexeme, hText, hHex, foldCase_foldCase, Ident.ofString_foldCase,
        isDigit_toLower, isWordStart_toLower, toLower_eq_mark_iff '#' (by decide) rfl,
        toLower_eq_mark_iff '[' (by decide) rfl,
        toLower_eq_mark_iff ']' (by decide) rfl,
        toLower_eq_mark_iff ',' (by decide) rfl,
        toLower_eq_mark_iff ':' (by decide) rfl]

/-- The tokens of a folded text, and their places, are those of the text. -/
theorem scanFrom_map_toLower (start : Nat) (cs : List Char) :
    scanFrom start (cs.map Char.toLower) = scanFrom start cs := by
  fun_induction scanFrom start cs with
  | case1 start => rw [List.map_nil, scanFrom]
  | case2 start c cs hSeparator ih =>
      rw [List.map_cons, scanFrom, if_pos ((isSeparator_toLower c).trans hSeparator),
        utf8Size_toLower]
      exact ih
  | case3 start c cs hLead lead stop ih =>
      -- The lexeme takes as many characters and bytes as before, so that the rest begins there too.
      have hLexeme := lexeme_map_toLower (c :: cs)
      rw [List.map_cons] at hLexeme
      rw [List.map_cons, scanFrom, if_neg (by rwa [isSeparator_toLower])]
      simp only [hLexeme, Token.ofLexeme_map_toLower, byteLength_map_toLower, List.length_map]
      rw [← List.map_cons, ← List.map_drop]
      exact congrArg (_ :: ·) ih

theorem scan_foldCase (source : String) : scan (foldCase source) = scan source := by
  simp only [scan, toList_foldCase, scanFrom_map_toLower, byteLength_map_toLower]

/-! ## The assembler -/

variable {source source' : String}

private theorem scan_eq_of_foldCase_eq (hSame : foldCase source = foldCase source') :
    scan source = scan source' := by
  rw [← scan_foldCase source, hSame, scan_foldCase]

/-- Behind the tokens, the text itself is not looked at any more. -/
theorem parse_eq_of_foldCase_eq (hSame : foldCase source = foldCase source') :
    parse source = parse source' := by
  rw [parse, parse, resolve_congr (scan_eq_of_foldCase_eq hSame)]

/-- Texts that differ in letter case only are assembled to the same image with the same
symbol table, or both cannot be assembled for the same reason, with the same names and
numbers in it, and at the same place. -/
theorem ObjectFile.ofSource_eq_of_foldCase_eq (hSame : foldCase source = foldCase source') :
    ofSource source = ofSource source' := by
  rw [ofSource, ofSource, parse_eq_of_foldCase_eq hSame]

/-- A label in three spellings, and a number in two. -/
theorem ObjectFile.ofSource_eq_of_foldCase_eq_three_spellings :
    foldCase "Loop: MOV reg[0], 0X2A\njmp LOOP" = foldCase "loop: mov Reg[0], 0x2a\nJMP loop" ∧
      ofSource "Loop: MOV reg[0], 0X2A\njmp LOOP" =
        ofSource "loop: mov Reg[0], 0x2a\nJMP loop" ∧
      (ofSource "loop: mov Reg[0], 0x2a\nJMP loop").toOption.isSome := by
  have hSame : foldCase "Loop: MOV reg[0], 0X2A\njmp LOOP" =
      foldCase "loop: mov Reg[0], 0x2a\nJMP loop" := by
    refine String.toList_inj.1 ?_
    rw [toList_foldCase, toList_foldCase]
    decide
  exact ⟨hSame, ofSource_eq_of_foldCase_eq hSame, by decide +kernel⟩

end Asm

end Chip8

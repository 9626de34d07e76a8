import Chip8.Proofs.Asm.Lexing
import Chip8.Proofs.Asm.Literal
import Chip8.Proofs.Asm.Operand
import Chip8.Proofs.Text.Lines
import Mathlib.Data.List.TakeWhile

/-!
# Numbers are read exactly

A literal may be of any length, and what it denotes may be any number. Reading it goes
through a word of 16 bits, which is given up at the first digit that is too many, and
through the width of a field. Neither loses anything: the number of a row of digits is
never larger than that of a longer row, so that a number given up early is too large for
the word, and a number too large for the word is too large for every field.

The lexer takes in more than digits. A decimal literal may have letters of base sixteen
in it, and a hexadecimal one may have its `x` in any place behind the first digit, and
more than one. None of these is a number. Which fault is found depends on what the
reader meets first: the digits in front of the first character that is none, if they
already denote more than a word holds, or that character.

What digits denote is said here by the order in which they are written down, and in
positional notation, without the reader.

## Main definitions

* `Text.digitsOf`, `Text.denoted`, `Text.IsNumeral` — digits, and the number that they
  denote.
* `Literal.Writes` — the radix of a literal, and what stands where its digits belong.
* `ReadExactly` — what a literal is read as.

## Main results

* `Text.accumulate_literal` — digits and stray characters, read in a row.
* `readValue_of_writes` — the way through the word and the field.
* `exists_isNumeral_of_readValue` — nothing but numbers is read.
* `lexed_of_mem_scan` — the characters of the literals of a text.
* `literal_read_exactly` — all literals of a text.
-/

namespace Chip8.Text

/-! ## Digits -/

/-- The digits up to base sixteen, in the order of their values. -/
def digitChars : List Char := "0123456789abcdef".toList

/-- The digits of a radix. -/
def digitsOf (radix : Nat) : List Char := digitChars.take radix

/-- The characters of literals. -/
def literalChars : List Char := digitChars ++ ['x']

/-- The number that digits denote in positional notation. The value of a digit is its
place in the order of digits. -/
def denoted (radix : Nat) (cs : List Char) : Nat :=
  Nat.ofDigits radix (cs.map (digitChars.idxOf ·)).reverse

/-- A row of digits of the radix, of which there is one at least. -/
def IsNumeral (radix : Nat) (cs : List Char) : Prop := cs ≠ [] ∧ ∀ c ∈ cs, c ∈ digitsOf radix

variable {radix : Nat} {c : Char} {cs : List Char}

private theorem isNumeral_iff : IsNumeral radix cs ↔ cs ≠ [] ∧ cs.all (· ∈ digitsOf radix) := by
  simp only [IsNumeral, List.all_eq_true, decide_eq_true_eq]

instance : Decidable (IsNumeral radix cs) := decidable_of_iff _ isNumeral_iff.symm

/-- Of the characters of literals, the reader takes the digits of the radix, with their
values. -/
theorem digit?_of_mem_literalChars (hRadix : radix ≤ 16) (hChar : c ∈ literalChars) :
    digit? radix c = if c ∈ digitsOf radix then some (digitChars.idxOf c) else none := by
  have hTable : ∀ r : Fin 17, literalChars.all fun c =>
      digit? r.val c = if c ∈ digitsOf r.val then some (digitChars.idxOf c) else none := by
    decide +kernel
  have hRow := List.all_eq_true.1 (hTable ⟨radix, by omega⟩) c hChar
  exact of_decide_eq_true hRow

/-! ## Reading digits -/

/-- The number of digits behind a prefix that denotes `value`. -/
def denotedBehind (radix value : Nat) (cs : List Char) : Nat :=
  continued radix value (cs.map (digitChars.idxOf ·))

private theorem denotedBehind_zero : denotedBehind radix 0 cs = denoted radix cs :=
  (ofDigits_reverse radix _).symm

/-- The characters of a literal are read up to the first that is no digit of the radix,
unless the digits in front of it overflow the word. -/
theorem accumulate_literal {value : Nat} (hPos : 0 < radix) (hRadix : radix ≤ 16)
    (hValue : value ≤ 65535) (hChars : ∀ c ∈ cs, c ∈ literalChars) :
    accumulate radix value cs =
      if 65535 < denotedBehind radix value (cs.takeWhile (· ∈ digitsOf radix)) then
        .error .overflow
      else if cs.all (· ∈ digitsOf radix) then .ok (denotedBehind radix value cs)
      else .error .malformed := by
  -- The value is general in the induction, since the first digit is part of it when the others are
  -- read.
  induction cs generalizing value with
  | nil =>
      have hSmall : ¬ 65535 < denotedBehind radix value [] := Nat.not_lt.2 hValue
      rw [List.takeWhile_nil, if_neg hSmall, if_pos List.all_nil]
      rfl
  | cons c cs ih =>
      obtain ⟨hHead, hTail⟩ := List.forall_mem_cons.1 hChars
      rw [accumulate, digit?_of_mem_literalChars hRadix hHead]
      by_cases hDigit : c ∈ digitsOf radix
      · have hFront : (c :: cs).takeWhile (· ∈ digitsOf radix) =
            c :: cs.takeWhile (· ∈ digitsOf radix) :=
          List.takeWhile_cons_of_pos (by simpa using hDigit)
        have hStep (ds : List Char) : denotedBehind radix value (c :: ds) =
            denotedBehind radix (value * radix + digitChars.idxOf c) ds := rfl
        have hAll : (c :: cs).all (· ∈ digitsOf radix) = cs.all (· ∈ digitsOf radix) := by
          rw [List.all_cons, decide_eq_true hDigit, Bool.true_and]
        simp only [if_pos hDigit, hFront, hStep, hAll]
        by_cases hFits : value * radix + digitChars.idxOf c < 65536
        · rw [if_pos hFits]
          exact ih (Nat.le_of_lt_succ hFits) hTail
        · -- The number only grows with the digits that follow.
          have hGrows : value * radix + digitChars.idxOf c ≤ denotedBehind radix
              (value * radix + digitChars.idxOf c) (cs.takeWhile (· ∈ digitsOf radix)) :=
            le_continued hPos _ _
          rw [if_neg hFits, if_pos (by omega)]
      · have hFront : (c :: cs).takeWhile (· ∈ digitsOf radix) = [] :=
          List.takeWhile_cons_of_neg (by simpa using hDigit)
        have hSmall : ¬ 65535 < denotedBehind radix value [] := Nat.not_lt.2 hValue
        have hStray : (c :: cs).all (· ∈ digitsOf radix) = false := by
          rw [List.all_cons, decide_eq_false hDigit, Bool.false_and]
        rw [if_neg hDigit, hFront, if_neg hSmall, hStray, if_neg Bool.false_ne_true]

/-- No character of a literal is a sign, so that a literal is read as its digits. -/
theorem readWord_literal (hPos : 0 < radix) (hRadix : radix ≤ 16) (hSome : cs ≠ [])
    (hChars : ∀ c ∈ cs, c ∈ literalChars) :
    readWord radix cs =
      if 65535 < denoted radix (cs.takeWhile (· ∈ digitsOf radix)) then .error .overflow
      else if cs.all (· ∈ digitsOf radix) then .ok (UInt16.ofNat (denoted radix cs))
      else .error .malformed := by
  have hRead := accumulate_literal hPos hRadix (Nat.zero_le _) hChars
  obtain ⟨c, rest, rfl⟩ := List.exists_cons_of_ne_nil hSome
  have hSign : ¬ (c = '+' ∧ rest ≠ []) := by
    intro hPlus
    have hMem : '+' ∈ literalChars := hPlus.1 ▸ hChars c List.mem_cons_self
    exact absurd hMem (by decide)
  rw [readWord, if_neg hSign, hRead]
  simp only [denotedBehind_zero]
  split
  · rfl
  · split
    · rfl
    · rfl

private theorem IsNumeral.takeWhile_eq (hNumeral : IsNumeral radix cs) :
    cs.takeWhile (· ∈ digitsOf radix) = cs :=
  List.takeWhile_eq_self_iff.2 fun c hMem => decide_eq_true (hNumeral.2 c hMem)

private theorem IsNumeral.mem_literalChars (hNumeral : IsNumeral radix cs) :
    ∀ c ∈ cs, c ∈ literalChars :=
  fun c hMem => List.mem_append_left ['x'] (List.mem_of_mem_take (hNumeral.2 c hMem))

private theorem IsNumeral.readWord_eq (hPos : 0 < radix) (hRadix : radix ≤ 16)
    (hNumeral : IsNumeral radix cs) :
    readWord radix cs =
      if 65535 < denoted radix cs then .error .overflow
      else .ok (UInt16.ofNat (denoted radix cs)) := by
  obtain ⟨hSome, hAll⟩ := isNumeral_iff.1 hNumeral
  rw [readWord_literal hPos hRadix hSome hNumeral.mem_literalChars, hNumeral.takeWhile_eq,
    if_pos hAll]

end Chip8.Text

namespace Chip8.Asm

open Text (digitChars digitsOf literalChars denoted IsNumeral)

/-! ## Literals -/

namespace Literal

/-- A literal as it is written, in small letters. -/
def text : Literal → String
  | hex digits => digits
  | decimal digits => digits

/-- A literal of the radix has the characters where its digits belong. A hexadecimal
literal has them behind `0x`. -/
inductive Writes : Literal → Nat → List Char → Prop where
  | decimal (digits : String) : Writes (.decimal digits) 10 digits.toList
  | hex {digits : String} {cs : List Char} (hMarked : digits.toList = '0' :: 'x' :: cs) :
      Writes (.hex digits) 16 cs

end Literal

/-- Reading the literal `l`, which is the token `t`, as the value of a field of `bits`
bits is exact. -/
structure ReadExactly (bits : Nat) (l : Literal) (t : Located) : Prop where
  /-- A number that the field can hold is read. -/
  value (radix : Nat) (cs : List Char) : l.Writes radix cs → IsNumeral radix cs →
    denoted radix cs < 2 ^ bits →
      ∃ f, readValue bits t = .ok f ∧ f.value.toNat = denoted radix cs
  /-- Any other number is too large. -/
  tooLarge (radix : Nat) (cs : List Char) : l.Writes radix cs → IsNumeral radix cs →
    2 ^ bits ≤ denoted radix cs →
      readValue bits t = .error (.single (.overflow ⟨bits⟩) t.span)
  /-- Nothing but numbers is read. -/
  only (f : Field bits) : readValue bits t = .ok f →
    ∃ radix cs, l.Writes radix cs ∧ IsNumeral radix cs
  /-- A literal with an `x` has to begin with `0x`. -/
  unmarked (digits : String) : l = .hex digits → ¬ ['0', 'x'] <+: digits.toList →
    readValue bits t = .error (.single (.invalidNumber l.text) t.span)
  /-- There has to be a digit behind `0x`. -/
  bare : l = .hex "0x" → readValue bits t = .error (.single (.invalidNumber l.text) t.span)
  /-- If not all characters are digits, those in front of the first that is none
  decide. -/
  stray (radix : Nat) (cs : List Char) : l.Writes radix cs → (∃ c ∈ cs, c ∉ digitsOf radix) →
    readValue bits t = .error (.single
      (if 65535 < denoted radix (cs.takeWhile (· ∈ digitsOf radix)) then .overflow ⟨bits⟩
        else .invalidNumber l.text) t.span)
  /-- A decimal literal is not empty, and besides digits it has letters of base sixteen
  only. -/
  letter (digits : String) : l = .decimal digits → digits.toList ≠ [] ∧
    ∀ c ∈ digits.toList, c ∉ digitsOf 10 → c ∈ ['a', 'b', 'c', 'd', 'e', 'f']
  /-- Besides digits, a hexadecimal literal has further marks only. -/
  mark (cs : List Char) : l.Writes 16 cs → ∀ c ∈ cs, c ∉ digitsOf 16 → c = 'x'

section Writes

variable {bits radix : Nat} {cs : List Char} {l : Literal} {t : Located}

/-- A literal that writes nothing in a radix is hexadecimal and without its mark. -/
theorem Literal.writes_or_unmarked (l : Literal) :
    (∃ radix cs, l.Writes radix cs) ∨
      ∃ digits, l = .hex digits ∧ ¬ ['0', 'x'] <+: digits.toList := by
  cases l with
  | decimal digits => exact .inl ⟨10, digits.toList, .decimal digits⟩
  | hex digits =>
      by_cases hMarked : ['0', 'x'] <+: digits.toList
      · obtain ⟨cs, hText⟩ := hMarked
        exact .inl ⟨16, cs, .hex hText.symm⟩
      · exact .inr ⟨digits, rfl, hMarked⟩

/-- The way of a literal goes through a word, whose faults are those of the literal, and
then through the width of the field. -/
theorem readValue_of_writes (hToken : t.token = l.token) (hWrites : l.Writes radix cs) :
    readValue bits t =
      match Text.readWord radix cs with
      | .ok word =>
        if hFits : word.toNat < fieldSize bits then .ok ⟨word, hFits⟩
        else .error (.single (.overflow ⟨bits⟩) t.span)
      | .error .malformed => .error (.single (.invalidNumber l.text) t.span)
      | .error .overflow => .error (.single (.overflow ⟨bits⟩) t.span) := by
  have hNumber : readNumber bits t =
      match Text.readWord radix cs with
      | .ok word => .ok word
      | .error .malformed => .error (.single (.invalidNumber l.text) t.span)
      | .error .overflow => .error (.single (.overflow ⟨bits⟩) t.span) := by
    cases hWrites with
    | decimal digits =>
        rw [readNumber, hToken]
        rfl
    | @hex digits cs hMarked =>
        have hBehind : Text.after? ['0', 'x'] digits.toList = some cs :=
          Text.after?_eq_some_iff.2 hMarked
        simp only [readNumber, hToken, Literal.token, hBehind]
        rfl
  rw [readValue, hNumber]
  cases Text.readWord radix cs with
  | ok word =>
      by_cases hFits : word.toNat < fieldSize bits
      · simp only [Field.ofWord, hFits, dite_true]
      · simp only [Field.ofWord, hFits, dite_false]
  | error fault => cases fault <;> rfl

private theorem readValue_of_unmarked {digits : String} (hToken : t.token = .hex digits)
    (hUnmarked : ¬ ['0', 'x'] <+: digits.toList) :
    readValue bits t = .error (.single (.invalidNumber digits) t.span) := by
  have hNone : Text.after? ['0', 'x'] digits.toList = none := Text.after?_eq_none_iff.2 hUnmarked
  have hNumber : readNumber bits t = .error (.single (.invalidNumber digits) t.span) := by
    simp only [readNumber, hToken, hNone]
  rw [readValue, hNumber]

private theorem Literal.Writes.radix_bounds (hWrites : l.Writes radix cs) :
    0 < radix ∧ radix ≤ 16 := by
  cases hWrites with
  | decimal => decide
  | hex => decide

/-- Without digits there is no number. -/
theorem readValue_of_nothing (hToken : t.token = l.token) (hWrites : l.Writes radix []) :
    readValue bits t = .error (.single (.invalidNumber l.text) t.span) := by
  rw [readValue_of_writes hToken hWrites]
  rfl

/-- A number that the field can hold passes the word unchanged. -/
theorem exists_readValue_of_lt (hToken : t.token = l.token) (hWrites : l.Writes radix cs)
    (hNumeral : IsNumeral radix cs) (hBits : bits ≤ 16) (hFits : denoted radix cs < 2 ^ bits) :
    ∃ f, readValue bits t = .ok f ∧ f.value.toNat = denoted radix cs := by
  have hField : 2 ^ bits ≤ 2 ^ 16 := Nat.pow_le_pow_right (by decide) hBits
  have hWord : (UInt16.ofNat (denoted radix cs)).toNat = denoted radix cs := by
    rw [UInt16.toNat_ofNat']
    exact Nat.mod_eq_of_lt (by omega)
  have hInside : (UInt16.ofNat (denoted radix cs)).toNat < fieldSize bits := by
    rw [hWord, fieldSize_eq]
    exact hFits
  refine ⟨⟨_, hInside⟩, ?_, hWord⟩
  obtain ⟨hPos, hRadix⟩ := hWrites.radix_bounds
  rw [readValue_of_writes hToken hWrites, hNumeral.readWord_eq hPos hRadix, if_neg (by omega)]
  exact dif_pos hInside

/-- A number that is too large for the field is refused by the field or already by the
word, which is not smaller. -/
theorem readValue_of_le (hToken : t.token = l.token) (hWrites : l.Writes radix cs)
    (hNumeral : IsNumeral radix cs) (hLarge : 2 ^ bits ≤ denoted radix cs) :
    readValue bits t = .error (.single (.overflow ⟨bits⟩) t.span) := by
  obtain ⟨hPos, hRadix⟩ := hWrites.radix_bounds
  rw [readValue_of_writes hToken hWrites, hNumeral.readWord_eq hPos hRadix]
  by_cases hWord : 65535 < denoted radix cs
  · rw [if_pos hWord]
  · have hOutside : ¬ (UInt16.ofNat (denoted radix cs)).toNat < fieldSize bits := by
      rw [UInt16.toNat_ofNat', Nat.mod_eq_of_lt (by omega), fieldSize_eq]
      exact Nat.not_lt.2 hLarge
    rw [if_neg hWord]
    exact dif_neg hOutside

/-- Characters that are not all digits of the radix are no number. -/
theorem readValue_of_stray (hToken : t.token = l.token) (hWrites : l.Writes radix cs)
    (hChars : ∀ c ∈ cs, c ∈ literalChars) (hStray : ∃ c ∈ cs, c ∉ digitsOf radix) :
    readValue bits t = .error (.single
      (if 65535 < denoted radix (cs.takeWhile (· ∈ digitsOf radix)) then .overflow ⟨bits⟩
        else .invalidNumber l.text) t.span) := by
  obtain ⟨hPos, hRadix⟩ := hWrites.radix_bounds
  obtain ⟨c, hMem, hNoDigit⟩ := hStray
  have hNotAll : cs.all (· ∈ digitsOf radix) = false :=
    List.all_eq_false.2 ⟨c, hMem, by simpa using hNoDigit⟩
  rw [readValue_of_writes hToken hWrites,
    Text.readWord_literal hPos hRadix (List.ne_nil_of_mem hMem) hChars, hNotAll,
    if_neg Bool.false_ne_true]
  by_cases hLarge : 65535 < denoted radix (cs.takeWhile (· ∈ digitsOf radix))
  · rw [if_pos hLarge, if_pos hLarge]
  · rw [if_neg hLarge, if_neg hLarge]

/-- What is read is a number. -/
theorem exists_isNumeral_of_readValue {f : Field bits} (hToken : t.token = l.token)
    (hChars : ∀ radix cs, l.Writes radix cs → ∀ c ∈ cs, c ∈ literalChars)
    (hRead : readValue bits t = .ok f) : ∃ radix cs, l.Writes radix cs ∧ IsNumeral radix cs := by
  cases l.writes_or_unmarked with
  | inl hWritten =>
      obtain ⟨radix, cs, hWrites⟩ := hWritten
      refine ⟨radix, cs, hWrites, ?_, ?_⟩
      · rintro rfl
        rw [readValue_of_nothing hToken hWrites] at hRead
        cases hRead
      · by_contra hNotAll
        push Not at hNotAll
        rw [readValue_of_stray hToken hWrites (hChars radix cs hWrites) hNotAll] at hRead
        cases hRead
  | inr hNoMark =>
      obtain ⟨digits, rfl, hBegins⟩ := hNoMark
      rw [readValue_of_unmarked hToken hBegins] at hRead
      cases hRead

end Writes

/-! ## The literals of a text -/

/-- A property of the characters with small codes, checked code by code. -/
theorem of_codes {p : Char → Prop} {bound : Nat} (hCodes : ∀ n < bound, p (Char.ofNat n)) {c : Char}
    (hSmall : c.toNat < bound) : p c := by
  have hHere := hCodes c.toNat hSmall
  rwa [Char.ofNat_toNat] at hHere

/-- Folded, the mark in a number is an `x`, and every other character is a digit. -/
theorem toLower_of_isNumeric {c : Char} (hNumeric : isNumeric c = true) :
    if isRadixMark c = true then c.toLower = 'x' else c.toLower ∈ digitChars := by
  have hSmall : c.toNat < 121 := by
    obtain ⟨range, hMem, -, hHigh⟩ := within_numeric.2 hNumeric
    have hLast : ∀ range ∈ [('0', '9'), ('a', 'f'), ('A', 'F'), ('x', 'x'), ('X', 'X')],
        range.2.toNat < 121 := by decide
    exact Nat.lt_of_le_of_lt (UInt32.le_iff_toNat_le.1 hHigh) (hLast range hMem)
  have hCodes : ∀ n < 121, isNumeric (Char.ofNat n) = true →
      if isRadixMark (Char.ofNat n) = true then (Char.ofNat n).toLower = 'x'
      else (Char.ofNat n).toLower ∈ digitChars := by decide +kernel
  exact of_codes (p := fun c => isNumeric c = true →
    if isRadixMark c = true then c.toLower = 'x' else c.toLower ∈ digitChars) hCodes hSmall hNumeric

namespace Reads

variable {lead rest : List Char} {digits : String}

/-- A decimal literal is made of digits of base sixteen. -/
theorem mem_digitChars (hReads : Reads lead rest (.decimal digits)) :
    digits.toList ≠ [] ∧ ∀ c ∈ digits.toList, c ∈ digitChars := by
  have hText := hReads.literal rfl
  rw [hText, Text.toList_foldCase, String.toList_ofList]
  cases hReads with
  | rule r hMatches hLongest hGives =>
      cases r with
      | decimal =>
          obtain ⟨c, ds, rfl, hDigit, hDigits⟩ := LexicalRule.matches_decimal_iff.1 hMatches
          have hFold {d : Char} (hNumeric : isNumeric d = true) (hNoMark : isRadixMark d = false) :
              d.toLower ∈ digitChars := by
            have hLower := toLower_of_isNumeric hNumeric
            rwa [hNoMark, if_neg Bool.false_ne_true] at hLower
          have hHead : c.toLower ∈ digitChars :=
            hFold (by simp [isNumeric, hDigit]) (isRadixMark_of_isDigit hDigit)
          have hTail : ∀ d ∈ ds, d.toLower ∈ digitChars :=
            fun d hMem => hFold (hDigits d hMem).1 (hDigits d hMem).2
          rw [List.map_cons, List.forall_mem_cons, List.forall_mem_map]
          exact ⟨List.cons_ne_nil _ _, hHead, hTail⟩
      | identifier => obtain ⟨k, -, hToken⟩ | ⟨-, hToken⟩ := hGives <;> cases hToken
      | hex | openBracket | closeBracket | comma | colon | comment => cases hGives

/-- A hexadecimal literal is made of digits and marks. -/
theorem mem_literalChars (hReads : Reads lead rest (.hex digits)) :
    ∀ c ∈ digits.toList, c ∈ literalChars := by
  have hText := hReads.literal rfl
  rw [hText, Text.toList_foldCase, String.toList_ofList, List.forall_mem_map]
  cases hReads with
  | rule r hMatches hLongest hGives =>
      cases r with
      | hex =>
          obtain ⟨c, ds, rfl, hDigit, hNumeric, -⟩ := LexicalRule.matches_hex_iff.1 hMatches
          have hFold (d : Char) (hHere : isNumeric d = true) : d.toLower ∈ literalChars := by
            have hLower := toLower_of_isNumeric hHere
            split at hLower
            · rw [hLower]
              decide
            · exact List.mem_append_left ['x'] hLower
          rw [List.forall_mem_cons]
          exact ⟨hFold c (by simp [isNumeric, hDigit]), fun d hMem => hFold d (hNumeric d hMem)⟩
      | identifier => obtain ⟨k, -, hToken⟩ | ⟨-, hToken⟩ := hGives <;> cases hToken
      | decimal | openBracket | closeBracket | comma | colon | comment => cases hGives

end Reads

/-- The characters of a literal of a text. -/
structure Literal.Lexed (l : Literal) : Prop where
  decimal (digits : String) : l = .decimal digits →
    digits.toList ≠ [] ∧ ∀ c ∈ digits.toList, c ∈ digitChars
  hex (digits : String) : l = .hex digits → ∀ c ∈ digits.toList, c ∈ literalChars

theorem lexed_of_mem_scan {source : String} {l : Literal} {t : Located}
    (hMem : t ∈ (scan source).tokens) (hToken : t.token = l.token) : l.Lexed := by
  obtain ⟨front, lead, rest, -, -, -, hReads⟩ :=
    (tiled_scanFrom 0 source.toList).exists_place hMem
  rw [hToken] at hReads
  constructor
  · rintro digits rfl
    exact hReads.mem_digitChars
  · rintro digits rfl
    exact hReads.mem_literalChars

/-- What stands where the digits of a literal belong. -/
theorem Literal.Lexed.mem_literalChars {l : Literal} {radix : Nat} {cs : List Char}
    (hLexed : l.Lexed) (hWrites : l.Writes radix cs) : ∀ c ∈ cs, c ∈ literalChars := by
  cases hWrites with
  | decimal digits =>
      obtain ⟨-, hAll⟩ := hLexed.decimal _ rfl
      exact fun c hMem => List.mem_append_left ['x'] (hAll c hMem)
  | hex hMarked =>
      have hAll := hLexed.hex _ rfl
      rw [hMarked] at hAll
      exact fun c hMem => hAll c (List.mem_cons_of_mem _ (List.mem_cons_of_mem _ hMem))

/-- A literal of any text is read as a value of the field exactly if it is a number that
the field can hold, and then as that number. Any other number is too large, however many
digits it has. What is no number is never read: a literal with an `x` that does not
begin with `0x`, and `0x` alone, are misspelt; a decimal literal with letters or a
hexadecimal one with a further `x` is too large if the digits in front of the first of
these already are too many for a word, and else it is misspelt. -/
theorem literal_read_exactly {source : String} {l : Literal} {t : Located} {bits : Nat}
    (hMem : t ∈ (scan source).tokens) (hToken : t.token = l.token) (hBits : bits ∈ [4, 8, 12]) :
    ReadExactly bits l t := by
  have hLexed := lexed_of_mem_scan hMem hToken
  have hNarrow : bits ≤ 16 := by
    simp only [List.mem_cons, List.not_mem_nil, or_false] at hBits
    omega
  constructor
  case value => exact fun radix cs hWrites hNumeral =>
    exists_readValue_of_lt hToken hWrites hNumeral hNarrow
  case tooLarge => exact fun radix cs => readValue_of_le hToken
  case only =>
    intro f
    exact exists_isNumeral_of_readValue hToken fun radix cs => hLexed.mem_literalChars
  case unmarked =>
    rintro digits rfl
    exact readValue_of_unmarked hToken
  case bare =>
    rintro rfl
    exact readValue_of_nothing hToken (.hex rfl)
  case stray =>
    intro radix cs hWrites
    exact readValue_of_stray hToken hWrites (hLexed.mem_literalChars hWrites)
  case letter =>
    intro digits hDecimal
    obtain ⟨hSome, hChars⟩ := hLexed.decimal digits hDecimal
    refine ⟨hSome, fun c hMem hNoDigit => ?_⟩
    have hEither : c ∈ digitsOf 10 ++ ['a', 'b', 'c', 'd', 'e', 'f'] := hChars c hMem
    exact (List.mem_append.1 hEither).resolve_left hNoDigit
  case mark =>
    intro cs hWrites c hMem hNoDigit
    have hEither : c ∈ digitsOf 16 ++ ['x'] := hLexed.mem_literalChars hWrites c hMem
    exact List.mem_singleton.1 ((List.mem_append.1 hEither).resolve_left hNoDigit)

/-- Zeros in front do not count. A letter is found only behind digits that a word
holds. -/
theorem literal_read_exactly_edges :
    (scan "0x00000FFF 65536A 65535a").tokens =
        [⟨.hex "0x00000fff", ⟨0, 10⟩⟩, ⟨.decimal "65536a", ⟨11, 17⟩⟩,
          ⟨.decimal "65535a", ⟨18, 24⟩⟩] ∧
      (∃ f, readValue 12 ⟨.hex "0x00000fff", ⟨0, 10⟩⟩ = .ok f ∧ f.value.toNat = 4095) ∧
      readValue 12 ⟨.decimal "65536a", ⟨11, 17⟩⟩ = .error (.single (.overflow ⟨12⟩) ⟨11, 17⟩) ∧
      readValue 12 ⟨.decimal "65535a", ⟨18, 24⟩⟩ =
        .error (.single (.invalidNumber "65535a") ⟨18, 24⟩) := by
  have hTokens : (scan "0x00000FFF 65536A 65535a").tokens =
      [⟨.hex "0x00000fff", ⟨0, 10⟩⟩, ⟨.decimal "65536a", ⟨11, 17⟩⟩,
        ⟨.decimal "65535a", ⟨18, 24⟩⟩] := by decide +kernel
  have hNumber : ReadExactly 12 (.hex "0x00000fff") ⟨.hex "0x00000fff", ⟨0, 10⟩⟩ :=
    literal_read_exactly (by rw [hTokens]; simp) rfl (by decide)
  have hLarge : ReadExactly 12 (.decimal "65536a") ⟨.decimal "65536a", ⟨11, 17⟩⟩ :=
    literal_read_exactly (by rw [hTokens]; simp) rfl (by decide)
  have hSmall : ReadExactly 12 (.decimal "65535a") ⟨.decimal "65535a", ⟨18, 24⟩⟩ :=
    literal_read_exactly (by rw [hTokens]; simp) rfl (by decide)
  refine ⟨hTokens, ?_, ?_, ?_⟩
  · exact hNumber.value 16 "00000fff".toList (.hex rfl) (by decide) (by decide +kernel)
  · exact hLarge.stray 10 _ (.decimal _) ⟨'a', by decide, by decide⟩
  · exact hSmall.stray 10 _ (.decimal _) ⟨'a', by decide, by decide⟩

end Chip8.Asm

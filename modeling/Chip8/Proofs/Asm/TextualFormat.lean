import Chip8.Proofs.Asm.TextualFile
import Mathlib.Data.List.Infix

/-!
# The form of text files

What stands in a text file is said here by its lines, without the reader. Comments,
white space around a line and empty lines are gone by then. The sections of a file are
taken apart first, so that the lines of an image are one row of lines, however many
sections they stand in and whatever stands between these, and so are the lines of a
table.

A column is meant to be digits of base sixteen, as many as it is wide. The reader counts
the bytes of a column and leaves the digits to the reader of numbers, which takes one
plus sign in front of them. Hence a column may have a sign in place of its first digit.
Both kinds of columns are given to the form of a file, so that it can be said what the
reader accepts, and when that is what is meant.

## Main definitions

* `linesIn` — the lines in the sections of one kind.
* `IsColumn`, `IsSignedColumn` — digits only, and what the reader takes for digits.
* `IsImageLine`, `AreImageLines`, `IsHeading`, `IsSymbolLine`, `AreSymbolLines` — rows
  of lines.
* `IsTextualFile` — all lines behind the first.
* `UnsignedLines` — no column of the lines begins with a sign.

## Main results

* `readHex?_eq_some_iff`, `readImageLine?_eq_some_iff`, `readSymbolLine?_eq_some_iff` —
  what is read.
* `readLines?_eq_some_iff` — the lines of all sections, by induction over the lines.
* `isTextualFile_isColumn_iff` — signs are the only difference.
* `ObjectFile.ofTextual?_accepts_lines` — what is read, and when it is as it is meant.
* `ObjectFile.not_isColumn_signed` — a file with a sign.
-/

namespace Chip8.Asm

/-! ## Sections -/

/-- The lines in the sections `s`, in order, of a row of lines whose first ones are in
the section `place`. A line that begins with a dot begins a section, and is in none. -/
def linesIn (s : Option Section) : Option Section → List (List Char) → List (List Char)
  | _, [] => []
  | place, line :: lines =>
    if line.head? = some '.' then linesIn s (some (Section.ofLine line)) lines
    else if place = s then line :: linesIn s place lines
    else linesIn s place lines

section LinesIn

variable {s place : Option Section} {line : List Char} {lines : List (List Char)}

private theorem linesIn_section (hDot : line.head? = some '.') :
    linesIn s place (line :: lines) = linesIn s (some (Section.ofLine line)) lines := by
  rw [linesIn, if_pos hDot]

private theorem linesIn_here (hDot : line.head? ≠ some '.') :
    linesIn place place (line :: lines) = line :: linesIn place place lines := by
  rw [linesIn, if_neg hDot, if_pos rfl]

private theorem linesIn_elsewhere (hDot : line.head? ≠ some '.') (hOther : place ≠ s) :
    linesIn s place (line :: lines) = linesIn s place lines := by
  rw [linesIn, if_neg hDot, if_neg hOther]

end LinesIn

/-! ## Columns -/

/-- As many digits of base sixteen as the column is wide, and the number that they
denote. -/
def IsColumn (width n : Nat) (cs : List Char) : Prop :=
  cs.length = width ∧ Text.numberOf? 16 cs = some n

/-- A column as the reader takes it: a plus sign may stand in place of the first
digit. -/
def IsSignedColumn (width n : Nat) (cs : List Char) : Prop :=
  IsColumn width n cs ∨ ∃ digits, cs = '+' :: digits ∧ IsColumn (width - 1) n digits

section Column

variable {width n : Nat} {cs : List Char}

/-- Without a sign there are only digits. -/
theorem isColumn_iff_of_isSignedColumn (hSigned : IsSignedColumn width n cs) :
    IsColumn width n cs ↔ cs.head? ≠ some '+' := by
  constructor
  · intro hColumn hPlus
    exact Text.plus_notMem_of_numberOf? hColumn.2 (List.mem_of_head? hPlus)
  · intro hNoPlus
    rcases hSigned with hColumn | ⟨digits, rfl, -⟩
    · exact hColumn
    · exact absurd rfl hNoPlus

/-- Each character is a digit or a plus sign. -/
theorem IsSignedColumn.mem (hSigned : IsSignedColumn width n cs) {c : Char} (hMem : c ∈ cs) :
    (Text.digit? 16 c).isSome ∨ c = '+' := by
  rcases hSigned with hColumn | ⟨digits, rfl, hColumn⟩
  · exact .inl (Text.digit?_isSome_of_numberOf? hColumn.2 c hMem)
  · rcases List.mem_cons.1 hMem with rfl | hMem
    · exact .inr rfl
    · exact .inl (Text.digit?_isSome_of_numberOf? hColumn.2 c hMem)

private theorem IsSignedColumn.notMem (hSigned : IsSignedColumn width n cs) {c : Char}
    (hDigit : Text.digit? 16 c = none) (hPlus : c ≠ '+') : c ∉ cs := by
  intro hMem
  rcases hSigned.mem hMem with hSome | hSame
  · rw [hDigit] at hSome
    cases hSome
  · exact hPlus hSame

/-- Each character takes one byte. -/
theorem IsSignedColumn.byteLength (hSigned : IsSignedColumn width n cs) (hWidth : 0 < width) :
    Text.byteLength cs = width := by
  rcases hSigned with ⟨hLength, hNumber⟩ | ⟨digits, rfl, hLength, hNumber⟩
  · rw [Text.byteLength_of_digit? (Text.digit?_isSome_of_numberOf? hNumber), hLength]
  · have hPlus : ('+' : Char).utf8Size = 1 := rfl
    rw [Text.byteLength_cons, hPlus,
      Text.byteLength_of_digit? (Text.digit?_isSome_of_numberOf? hNumber), hLength]
    omega

theorem IsSignedColumn.lt (hSigned : IsSignedColumn width n cs) : n < 16 ^ width := by
  rcases hSigned with ⟨rfl, hNumber⟩ | ⟨digits, -, hLength, hNumber⟩
  · exact Text.numberOf?_lt (by decide) hNumber
  · have hSmall := Text.numberOf?_lt (by decide) hNumber
    rw [hLength] at hSmall
    exact Nat.lt_of_lt_of_le hSmall (Nat.pow_le_pow_right (by decide) (Nat.sub_le ..))

/-- What the reader takes for a column of a word. -/
theorem readHex?_eq_some_iff {word : UInt16} (hWidth : 0 < width) :
    readHex? width cs = some word ↔ IsSignedColumn width word.toNat cs := by
  have hRead : (Text.readWord 16 cs).toOption = some word ↔ Text.readWord 16 cs = .ok word := by
    cases Text.readWord 16 cs <;> simp [Except.toOption]
  constructor
  · intro hColumn
    rw [readHex?, Option.ite_none_right_eq_some, hRead,
      Text.readWord_eq_ok_iff_signed (by decide)] at hColumn
    rcases hColumn with ⟨hLength, hNumber | ⟨digits, rfl, hNumber⟩⟩
    · rw [Text.byteLength_of_digit? (Text.digit?_isSome_of_numberOf? hNumber)] at hLength
      exact .inl ⟨hLength, hNumber⟩
    · have hPlus : ('+' : Char).utf8Size = 1 := rfl
      rw [Text.byteLength_cons, hPlus,
        Text.byteLength_of_digit? (Text.digit?_isSome_of_numberOf? hNumber)] at hLength
      exact .inr ⟨digits, rfl, by omega, hNumber⟩
  · intro hSigned
    rw [readHex?, if_pos (hSigned.byteLength hWidth), hRead,
      Text.readWord_eq_ok_iff_signed (by decide)]
    rcases hSigned with hColumn | ⟨digits, rfl, hColumn⟩
    · exact .inl hColumn.2
    · exact .inr ⟨digits, rfl, hColumn.2⟩

end Column

/-! ## Lines of the image -/

/-- A line of an image: its address, a space, and two bytes as a word, or one byte. -/
def IsImageLine (Number : Nat → Nat → List Char → Prop) (address : Nat) (line : List Char)
    (bytes : List UInt8) : Prop :=
  ∃ front data, line = front ++ ' ' :: data ∧ Number 4 address front ∧
    ((∃ high low : UInt8, bytes = [high, low] ∧ Number 4 (high.toNat * 256 + low.toNat) data) ∨
      ∃ byte : UInt8, bytes = [byte] ∧ Number 2 byte.toNat data)

/-- The lines of an image behind `count` bytes. Their addresses run on, and a single
byte stands in the last line only. -/
inductive AreImageLines (Number : Nat → Nat → List Char → Prop) :
    Nat → List (List Char) → List UInt8 → Prop
  | nil {count : Nat} : AreImageLines Number count [] []
  | last {count : Nat} {line : List Char} {byte : UInt8}
      (hLine : IsImageLine Number (0x200 + count) line [byte]) :
      AreImageLines Number count [line] [byte]
  | word {count : Nat} {line : List Char} {high low : UInt8} {lines : List (List Char)}
      {bytes : List UInt8} (hLine : IsImageLine Number (0x200 + count) line [high, low])
      (hLines : AreImageLines Number (count + 2) lines bytes) :
      AreImageLines Number count (line :: lines) (high :: low :: bytes)

theorem readImageLine?_eq_some_iff {count : Nat} {line : List Char} {bytes : List UInt8} :
    readImageLine? count line = some bytes ↔
      count % 2 = 0 ∧ IsImageLine IsSignedColumn (0x200 + count) line bytes := by
  constructor
  · intro hRead
    simp only [readImageLine?, Option.bind_eq_bind, Option.bind_eq_some_iff, Prod.exists,
      Option.ite_none_right_eq_some, readHex?_eq_some_iff (by decide : 0 < 4)] at hRead
    rcases hRead with ⟨front, data, hCut, address, hFront, ⟨hPlace, hEven⟩, hData⟩
    have hLine : line = front ++ ' ' :: data := by simpa using Text.append_of_cut? hCut
    rw [hPlace] at hFront
    refine ⟨hEven, front, data, hLine, hFront, ?_⟩
    split at hData
    · rcases Option.map_eq_some_iff.1 hData with ⟨word, hWord, rfl⟩
      rw [readHex?_eq_some_iff (by decide)] at hWord
      refine .inl ⟨highByte word, lowByte word, rfl, ?_⟩
      rwa [← toNat_joinBytes, joinBytes_highByte_lowByte]
    · split at hData
      · rcases Option.map_eq_some_iff.1 hData with ⟨word, hWord, rfl⟩
        rw [readHex?_eq_some_iff (by decide)] at hWord
        have hSmall : word.toNat < 256 := hWord.lt
        refine .inr ⟨lowByte word, rfl, ?_⟩
        rwa [toNat_lowByte, Nat.mod_eq_of_lt hSmall]
      · cases hData
  · rintro ⟨hEven, front, data, rfl, hFront, hData⟩
    have hSpace : ' ' ∉ front := hFront.notMem (by decide) (by decide)
    have hSmall : 0x200 + count < 65536 := hFront.lt
    have hWord : (UInt16.ofNat (0x200 + count)).toNat = 0x200 + count := by
      rw [UInt16.toNat_ofNat', Nat.mod_eq_of_lt hSmall]
    have hAddress : readHex? 4 front = some (UInt16.ofNat (0x200 + count)) := by
      rw [readHex?_eq_some_iff (by decide), hWord]
      exact hFront
    have hPlace : (UInt16.ofNat (0x200 + count)).toNat = programStart + count ∧ count % 2 = 0 :=
      ⟨hWord, hEven⟩
    simp only [readImageLine?, Text.cut?_singleton hSpace, hAddress, Option.bind_eq_bind,
      Option.bind_some, if_pos hPlace]
    rcases hData with ⟨high, low, rfl, hData⟩ | ⟨byte, rfl, hData⟩
    · rw [← toNat_joinBytes] at hData
      rw [if_pos (hData.byteLength (by decide)), (readHex?_eq_some_iff (by decide)).2 hData,
        Option.map_some, wordBytes, highByte_joinBytes, lowByte_joinBytes]
    · have hByte : (UInt16.ofNat byte.toNat).toNat = byte.toNat := by
        have hSmall := byte.toNat_lt
        rw [UInt16.toNat_ofNat', Nat.mod_eq_of_lt (by omega)]
      have hLow : lowByte (UInt16.ofNat byte.toNat) = byte := by
        refine UInt8.toNat_inj.1 ?_
        rw [toNat_lowByte, hByte, Nat.mod_eq_of_lt byte.toNat_lt]
      have hLength := hData.byteLength (by decide)
      rw [← hByte] at hData
      rw [hLength, if_neg (by decide), if_pos rfl, (readHex?_eq_some_iff (by decide)).2 hData,
        Option.map_some, hLow]

/-- The lines of an image behind `count` bytes; there are none behind half a word. -/
def AreLinesBehind (count : Nat) (lines : List (List Char)) (bytes : List UInt8) : Prop :=
  if count % 2 = 0 then AreImageLines IsSignedColumn count lines bytes else lines = [] ∧ bytes = []

private theorem areLinesBehind_nil_iff {count : Nat} {bytes : List UInt8} :
    AreLinesBehind count [] bytes ↔ bytes = [] := by
  unfold AreLinesBehind
  split
  · constructor
    · intro hLines
      cases hLines
      rfl
    · rintro rfl
      exact .nil
  · simp

/-- The first line is read on its own, and the others behind its bytes. -/
theorem areLinesBehind_cons_iff {count : Nat} {line : List Char} {lines : List (List Char)}
    {bytes : List UInt8} :
    AreLinesBehind count (line :: lines) bytes ↔
      ∃ first rest, readImageLine? count line = some first ∧
        AreLinesBehind (count + first.length) lines rest ∧ bytes = first ++ rest := by
  simp only [readImageLine?_eq_some_iff]
  constructor
  · intro hLines
    unfold AreLinesBehind at hLines
    split at hLines
    · rename_i hEven
      cases hLines with
      | last hLine =>
          refine ⟨_, [], ⟨hEven, hLine⟩, areLinesBehind_nil_iff.2 rfl, rfl⟩
      | word hLine hRest =>
          refine ⟨_, _, ⟨hEven, hLine⟩, ?_, rfl⟩
          have hNext : (count + 2) % 2 = 0 := by omega
          show AreLinesBehind (count + 2) _ _
          rwa [AreLinesBehind, if_pos hNext]
    · simp at hLines
  · rintro ⟨first, rest, ⟨hEven, hLine⟩, hRest, rfl⟩
    rw [AreLinesBehind, if_pos hEven]
    rcases id hLine with ⟨-, -, -, -, ⟨high, low, rfl, -⟩ | ⟨byte, rfl, -⟩⟩
    · have hNext : (count + 2) % 2 = 0 := by omega
      change AreLinesBehind (count + 2) _ _ at hRest
      rw [AreLinesBehind, if_pos hNext] at hRest
      exact .word hLine hRest
    · have hNext : ¬ (count + 1) % 2 = 0 := by omega
      change AreLinesBehind (count + 1) _ _ at hRest
      rw [AreLinesBehind, if_neg hNext] at hRest
      obtain ⟨rfl, rfl⟩ := hRest
      exact .last hLine

/-! ## Lines of a table -/

/-- The line that heads a table. -/
def IsHeading (line : List Char) : Prop :=
  ∃ front back, line = front ++ '|' :: back ∧ '|' ∉ front ∧ Text.trim front = "ADDR".toList ∧
    Text.trim back = "LABEL".toList

/-- A line of a label: its address, a bar with or without white space around it, and the
name. -/
def IsSymbolLine (Number : Nat → Nat → List Char → Prop) (line : List Char) (r : LabelRecord) :
    Prop :=
  ∃ digits front back, line = digits ++ (front ++ '|' :: (back ++ r.name.toList)) ∧
    Number 4 r.address.toNat digits ∧ (∀ c ∈ front ++ back, Text.isBlank c) ∧
    Text.trim r.name.toList = r.name.toList

/-- The lines of a table. Those that head it have no label. -/
inductive AreSymbolLines (Number : Nat → Nat → List Char → Prop) :
    List (List Char) → List LabelRecord → Prop
  | nil : AreSymbolLines Number [] []
  | heading {line : List Char} {lines : List (List Char)} {records : List LabelRecord}
      (hLine : IsHeading line) (hLines : AreSymbolLines Number lines records) :
      AreSymbolLines Number (line :: lines) records
  | label {line : List Char} {lines : List (List Char)} {r : LabelRecord}
      {records : List LabelRecord} (hLine : IsSymbolLine Number line r)
      (hLines : AreSymbolLines Number lines records) :
      AreSymbolLines Number (line :: lines) (r :: records)

section SymbolLine

variable {line : List Char} {t t' : SymbolTable} {r : LabelRecord}

/-- A heading is read as no label. -/
theorem readSymbolLine?_of_isHeading (hLine : IsHeading line) :
    readSymbolLine? t line = some t := by
  rcases hLine with ⟨front, back, rfl, hBar, hFront, hBack⟩
  simp only [readSymbolLine?, Text.cut?_singleton hBar, Option.bind_eq_bind, Option.bind_some,
    if_pos (And.intro hFront hBack), Option.pure_def]

/-- A line of a label is read as that label. -/
theorem readSymbolLine?_of_isSymbolLine (hLine : IsSymbolLine IsSignedColumn line r) :
    readSymbolLine? t line = some (t.insert r.name r.address) := by
  rcases hLine with ⟨digits, front, back, rfl, hDigits, hBlanks, hName⟩
  have hFront : ∀ c ∈ front, Text.isBlank c := fun c hc => hBlanks c (List.mem_append_left _ hc)
  have hBack : ∀ c ∈ back, Text.isBlank c := fun c hc => hBlanks c (List.mem_append_right _ hc)
  have hBar : '|' ∉ digits ++ front := by
    rw [List.mem_append, not_or]
    exact ⟨hDigits.notMem (by decide) (by decide), fun hMem => absurd (hFront _ hMem) (by decide)⟩
  have hVisible : ∀ c ∈ digits, Text.isBlank c = false := by
    intro c hc
    rcases hDigits.mem hc with hDigit | rfl
    · have hCode := Text.toNat_of_digit? hDigit
      exact Text.isBlank_of_visible (by omega) (by omega)
    · rfl
  have hTrim : Text.trim (digits ++ front) = digits := by
    rw [Text.trim_append_blanks hFront, Text.trim_eq_self_of_forall hVisible]
  have hLabel : Text.trim (back ++ r.name.toList) = r.name.toList := by
    rw [Text.trim_blanks_append hBack, hName]
  have hNoHeading : ¬ (digits = "ADDR".toList ∧ r.name.toList = "LABEL".toList) := by
    rintro ⟨rfl, -⟩
    exact hDigits.notMem (c := 'R') (by decide) (by decide) (by decide)
  rw [← List.append_assoc, readSymbolLine?, Text.cut?_singleton hBar, Option.bind_eq_bind,
    Option.bind_some]
  simp only [hTrim, hLabel, if_neg hNoHeading, (readHex?_eq_some_iff (by decide)).2 hDigits,
    Option.pure_def, String.ofList_toList]
  rfl

/-- A line that is read heads the table or has a label. -/
theorem readSymbolLine?_eq_some_iff (hTrimmed : Text.trim line = line) :
    readSymbolLine? t line = some t' ↔
      IsHeading line ∧ t' = t ∨
        ∃ r, IsSymbolLine IsSignedColumn line r ∧ t' = t.insert r.name r.address := by
  constructor
  · intro hRead
    rw [readSymbolLine?, Option.bind_eq_bind, Option.bind_eq_some_iff] at hRead
    rcases hRead with ⟨⟨front, back⟩, hCut, hRead⟩
    have hLine : line = front ++ '|' :: back := by simpa using Text.append_of_cut? hCut
    have hBar : '|' ∉ front := by
      rw [← List.singleton_infix_iff]
      exact Text.not_infix_of_cut? (by simp) hCut
    simp only at hRead
    split at hRead
    · rename_i hHeading
      exact .inl ⟨⟨front, back, hLine, hBar, hHeading⟩, (Option.some.inj hRead).symm⟩
    · rcases Option.bind_eq_some_iff.1 hRead with ⟨address, hAddress, hInserted⟩
      rw [readHex?_eq_some_iff (by decide)] at hAddress
      have hHead : ∀ c ∈ front.head?, Text.isBlank c = false := by
        intro c hc
        refine Text.isBlank_head?_trim line c ?_
        rw [hTrimmed, hLine, List.head?_append, Option.mem_def.1 hc]
        rfl
      have hLast : ∀ c ∈ back.getLast?, Text.isBlank c = false := by
        intro c hc
        refine Text.isBlank_getLast?_trim line c ?_
        rw [hTrimmed, hLine, List.append_cons, List.getLast?_append, Option.mem_def.1 hc]
        rfl
      rcases Text.exists_eq_trim_append hHead with ⟨blanks, hFront, hBlanks⟩
      rcases Text.exists_eq_append_trim hLast with ⟨blanks', hBack, hBlanks'⟩
      refine .inr ⟨⟨String.ofList (Text.trim back), address⟩,
        ⟨Text.trim front, blanks, blanks', ?_, hAddress, ?_, ?_⟩, (Option.some.inj hInserted).symm⟩
      · rw [String.toList_ofList, ← hBack, ← List.append_assoc, ← hFront, hLine]
      · exact List.forall_mem_append.2 ⟨hBlanks, hBlanks'⟩
      · rw [String.toList_ofList, Text.trim_trim]
  · rintro (⟨hHeading, rfl⟩ | ⟨r, hLabel, rfl⟩)
    · exact readSymbolLine?_of_isHeading hHeading
    · exact readSymbolLine?_of_isSymbolLine hLabel

end SymbolLine

/-! ## Files -/

theorem areSymbolLines_nil_iff {Number : Nat → Nat → List Char → Prop}
    {records : List LabelRecord} : AreSymbolLines Number [] records ↔ records = [] := by
  constructor
  · intro hLines
    cases hLines
    rfl
  · rintro rfl
    exact .nil

/-- The first line of a table is read on its own, and the others with what it has
entered. -/
theorem exists_areSymbolLines_cons_iff {line : List Char} {lines : List (List Char)}
    {t : SymbolTable} (hTrimmed : Text.trim line = line) (P : SymbolTable → Prop) :
    (∃ records, AreSymbolLines IsSignedColumn (line :: lines) records ∧
        P (t.withRecords records)) ↔
      ∃ next, readSymbolLine? t line = some next ∧
        ∃ records, AreSymbolLines IsSignedColumn lines records ∧ P (next.withRecords records) := by
  simp only [readSymbolLine?_eq_some_iff hTrimmed]
  constructor
  · rintro ⟨records, hLines, hTable⟩
    cases hLines with
    | heading hLine hRest => exact ⟨t, .inl ⟨hLine, rfl⟩, records, hRest, hTable⟩
    | label hLine hRest => exact ⟨_, .inr ⟨_, hLine, rfl⟩, _, hRest, hTable⟩
  · rintro ⟨next, ⟨hLine, rfl⟩ | ⟨r, hLine, rfl⟩, records, hRest, hTable⟩
    · exact ⟨records, .heading hLine hRest, hTable⟩
    · exact ⟨r :: records, .label hLine hRest, hTable⟩

/-- A section for a table is begun by one line only. -/
theorem ofLine_eq_symbols_iff {line : List Char} :
    Section.ofLine line = .symbols ↔ line = ".SYMBOL".toList := by
  unfold Section.ofLine
  split
  · rename_i hImage
    rw [hImage]
    decide
  · split <;> simp_all

/-- The table that there is once one of the lines has begun a section for it. -/
def tableBehind (t : Option SymbolTable) (name : List Char) (lines : List (List Char)) :
    Option SymbolTable :=
  if name ∈ lines then some (t.getD .empty) else t

private theorem tableBehind_cons_self (t : Option SymbolTable) (name : List Char)
    (lines : List (List Char)) :
    tableBehind t name (name :: lines) = tableBehind (some (t.getD .empty)) name lines := by
  simp [tableBehind]

private theorem tableBehind_cons_of_ne {name line : List Char} (t : Option SymbolTable)
    (lines : List (List Char)) (hOther : name ≠ line) :
    tableBehind t name (line :: lines) = tableBehind t name lines := by
  simp [tableBehind, hOther]

/-- A line that begins a section begins a table or leaves it as it is. -/
theorem tableBehind_section (t : Option SymbolTable) (line : List Char)
    (lines : List (List Char)) :
    tableBehind t ".SYMBOL".toList (line :: lines) =
      tableBehind (if Section.ofLine line = .symbols then some (t.getD .empty) else t)
        ".SYMBOL".toList lines := by
  split
  · rename_i hSymbols
    rw [ofLine_eq_symbols_iff.1 hSymbols, tableBehind_cons_self]
  · rename_i hOther
    exact tableBehind_cons_of_ne t lines fun hSame => hOther (ofLine_eq_symbols_iff.2 hSame.symm)

section ReadLines

variable {place : Option Section} {count : Nat} {line : List Char}

/-- The line of an image stands in front of the lines behind its bytes. -/
theorem readLines?_image (hDot : line.head? ≠ some '.') (t : Option SymbolTable)
    (lines : List (List Char)) :
    readLines? (some .image) count t (line :: lines) =
      (readImageLine? count line).bind fun first =>
        (readLines? (some .image) (count + first.length) t lines).map
          fun p => (first ++ p.1, p.2) := by
  cases hLine : readImageLine? count line with
  | some first => exact readLines?_image_cons hDot hLine lines
  | none =>
      rw [readLines?, if_neg hDot]
      simp only [hLine]
      rfl

/-- The line of a table enters its label for the lines behind. -/
theorem readLines?_symbols (hDot : line.head? ≠ some '.') (t : SymbolTable)
    (lines : List (List Char)) :
    readLines? (some .symbols) count (some t) (line :: lines) =
      (readSymbolLine? t line).bind fun t => readLines? (some .symbols) count (some t) lines := by
  rw [readLines?, if_neg hDot]
  rfl

/-- Lines in no section, or in one of another name, are not read. -/
theorem readLines?_nowhere (hDot : line.head? ≠ some '.')
    (hNone : place = none ∨ place = some .other) (t : Option SymbolTable)
    (lines : List (List Char)) :
    readLines? place count t (line :: lines) = none := by
  rcases hNone with rfl | rfl
  · rw [readLines?, if_neg hDot] <;> simp
  · rw [readLines?, if_neg hDot] <;> simp

end ReadLines

/-- Lines are read exactly if each of them stands in a section for an image or for a
table, and is a line of it. -/
theorem readLines?_eq_some_iff {place : Option Section} {count : Nat} {t t' : Option SymbolTable}
    {lines : List (List Char)} {bytes : List UInt8}
    (hTrimmed : ∀ line ∈ lines, Text.trim line = line)
    (hTable : place = some .symbols → t.isSome) :
    readLines? place count t lines = some (bytes, t') ↔
      linesIn none place lines = [] ∧ linesIn (some .other) place lines = [] ∧
        AreLinesBehind count (linesIn (some .image) place lines) bytes ∧
        ∃ records, AreSymbolLines IsSignedColumn (linesIn (some .symbols) place lines) records ∧
          t' = (tableBehind t ".SYMBOL".toList lines).map (·.withRecords records) := by
  induction lines generalizing place count t t' bytes with
  | nil =>
      have hNone : (∃ records : List LabelRecord, records = [] ∧
          t' = t.map (·.withRecords records)) ↔ t = t' := by
        rw [exists_eq_left, eq_comm]
        cases t <;> rfl
      simp only [readLines?, linesIn, tableBehind, List.not_mem_nil, if_false,
        areLinesBehind_nil_iff, areSymbolLines_nil_iff, hNone, Option.some.injEq, Prod.mk.injEq,
        true_and, eq_comm (a := bytes)]
  | cons line lines ih =>
      have hLine : Text.trim line = line := hTrimmed line (by simp)
      have hRest : ∀ l ∈ lines, Text.trim l = l := fun l hl => hTrimmed l (by simp [hl])
      by_cases hDot : line.head? = some '.'
      · rw [readLines?_section hDot, linesIn_section hDot, linesIn_section hDot,
          linesIn_section hDot, linesIn_section hDot, tableBehind_section]
        refine ih hRest fun hSymbols => ?_
        rw [if_pos (Option.some.inj hSymbols)]
        rfl
      · have hName : ".SYMBOL".toList ≠ line := by
          rintro rfl
          exact hDot rfl
        rw [tableBehind_cons_of_ne t lines hName]
        cases place with
        | none => simp [readLines?_nowhere hDot, linesIn_here hDot]
        | some s =>
            cases s with
            | other => simp [readLines?_nowhere hDot, linesIn_here hDot]
            | image =>
                have hNot (count : Nat) (t' : Option SymbolTable) (bytes : List UInt8) :=
                  @ih (some .image) count t t' bytes hRest (by simp)
                rw [readLines?_image hDot, linesIn_elsewhere hDot (by decide),
                  linesIn_elsewhere hDot (by decide), linesIn_here hDot,
                  linesIn_elsewhere hDot (by decide)]
                simp only [areLinesBehind_cons_iff, Option.bind_eq_some_iff,
                  Option.map_eq_some_iff, Prod.exists, hNot]
                constructor
                · rintro ⟨first, hFirst, rest, t'', ⟨hNone, hOther, hLines, hLabels⟩, hBoth⟩
                  obtain ⟨rfl, rfl⟩ := Prod.mk.inj hBoth
                  exact ⟨hNone, hOther, ⟨first, rest, hFirst, hLines, rfl⟩, hLabels⟩
                · rintro ⟨hNone, hOther, ⟨first, rest, hFirst, hLines, rfl⟩, hLabels⟩
                  exact ⟨first, hFirst, rest, t', ⟨hNone, hOther, hLines, hLabels⟩, rfl⟩
            | symbols =>
                rcases Option.isSome_iff_exists.1 (hTable rfl) with ⟨table, rfl⟩
                have hNot (table : SymbolTable) (t' : Option SymbolTable) (bytes : List UInt8) :=
                  @ih (some .symbols) count (some table) t' bytes hRest (by simp)
                have hBehind (table : SymbolTable) :
                    tableBehind (some table) ".SYMBOL".toList lines = some table := by
                  unfold tableBehind
                  split <;> rfl
                rw [readLines?_symbols hDot, linesIn_elsewhere hDot (by decide),
                  linesIn_elsewhere hDot (by decide), linesIn_elsewhere hDot (by decide),
                  linesIn_here hDot]
                simp only [Option.bind_eq_some_iff, hNot, hBehind, Option.map_some,
                  exists_areSymbolLines_cons_iff hLine fun table => t' = some table]
                constructor
                · rintro ⟨next, hNext, hNone, hOther, hLines, hLabels⟩
                  exact ⟨hNone, hOther, hLines, next, hNext, hLabels⟩
                · rintro ⟨hNone, hOther, hLines, next, hNext, hLabels⟩
                  exact ⟨next, hNext, hNone, hOther, hLines, hLabels⟩

/-- What stands behind the first line of a file. -/
structure IsTextualFile (Number : Nat → Nat → List Char → Prop) (lines : List (List Char))
    (image : List UInt8) (labels : Option (List LabelRecord)) : Prop where
  /-- No line stands in front of the sections. -/
  front : linesIn none none lines = []
  /-- No line stands in a section of another name. -/
  other : linesIn (some .other) none lines = []
  imageLines : AreImageLines Number 0 (linesIn (some .image) none lines) image
  fits : image.length ≤ 3584
  /-- There are labels, if only none of them, where a section for a table begins. -/
  begun : labels.isSome ↔ ".SYMBOL".toList ∈ lines
  symbolLines : AreSymbolLines Number (linesIn (some .symbols) none lines) (labels.getD [])

/-- Without the line that begins a section for a table there are no lines of a table. -/
theorem linesIn_symbols_eq_nil {place : Option Section} {lines : List (List Char)}
    (hPlace : place ≠ some .symbols) (hNever : ".SYMBOL".toList ∉ lines) :
    linesIn (some .symbols) place lines = [] := by
  induction lines generalizing place with
  | nil => rfl
  | cons line lines ih =>
      have hRest : ".SYMBOL".toList ∉ lines := fun hMem => hNever (List.mem_cons_of_mem line hMem)
      by_cases hDot : line.head? = some '.'
      · rw [linesIn_section hDot]
        refine ih (fun hSymbols => hNever ?_) hRest
        rw [ofLine_eq_symbols_iff.1 (Option.some.inj hSymbols)]
        exact List.mem_cons_self
      · rw [linesIn_elsewhere hDot hPlace]
        exact ih hPlace hRest

private theorem trim_of_mem_meaningfulLines {text line : List Char}
    (hLine : line ∈ meaningfulLines text) :
    Text.trim line = line := by
  rcases List.mem_map.1 (List.mem_of_mem_filter hLine) with ⟨raw, -, rfl⟩
  exact Text.trim_trim _

/-- The lines behind the first are read exactly if they are those of a file. -/
theorem readLines?_eq_some_iff_isTextualFile {lines : List (List Char)} {image : List UInt8}
    {t : Option SymbolTable} (hTrimmed : ∀ line ∈ lines, Text.trim line = line) :
    readLines? none 0 none lines = some (image, t) ∧ image.length ≤ 3584 ↔
      ∃ labels, IsTextualFile IsSignedColumn lines image labels ∧
        Option.Rel SymbolTable.MadeOf t labels := by
  rw [readLines?_eq_some_iff hTrimmed (by simp)]
  show (_ ∧ _ ∧ AreImageLines IsSignedColumn 0 _ _ ∧ _) ∧ _ ↔ _
  by_cases hBegun : ".SYMBOL".toList ∈ lines
  · have hTable (records : List LabelRecord) :
        (tableBehind none ".SYMBOL".toList lines).map (·.withRecords records) =
          some (.ofRecords records) := by
      rw [tableBehind, if_pos hBegun]
      rfl
    simp only [hTable]
    constructor
    · rintro ⟨⟨hNone, hOther, hImage, records, hLabels, rfl⟩, hFits⟩
      exact ⟨some records, ⟨hNone, hOther, hImage, hFits, by simpa using hBegun, hLabels⟩,
        .some (SymbolTable.madeOf_iff.2 rfl)⟩
    · rintro ⟨labels, hFile, hMade⟩
      rcases Option.isSome_iff_exists.1 (hFile.begun.2 hBegun) with ⟨records, rfl⟩
      rcases hMade with hMade | -
      obtain rfl := SymbolTable.madeOf_iff.1 hMade
      exact ⟨⟨hFile.front, hFile.other, hFile.imageLines, records, hFile.symbolLines, rfl⟩,
        hFile.fits⟩
  · have hEmpty : linesIn (some .symbols) none lines = [] :=
      linesIn_symbols_eq_nil (by simp) hBegun
    have hTable (records : List LabelRecord) :
        (tableBehind none ".SYMBOL".toList lines).map (·.withRecords records) = none := by
      rw [tableBehind, if_neg hBegun]
      rfl
    simp only [hTable, hEmpty, areSymbolLines_nil_iff, exists_eq_left]
    constructor
    · rintro ⟨⟨hNone, hOther, hImage, rfl⟩, hFits⟩
      refine ⟨none, ⟨hNone, hOther, hImage, hFits, by simpa using hBegun, ?_⟩, .none⟩
      rw [hEmpty]
      exact .nil
    · rintro ⟨labels, hFile, hMade⟩
      cases labels with
      | none =>
          cases hMade
          exact ⟨⟨hFile.front, hFile.other, hFile.imageLines, rfl⟩, hFile.fits⟩
      | some records => exact absurd (hFile.begun.1 rfl) hBegun

/-! ## Signs -/

/-- No column of the lines begins with a sign. -/
def UnsignedLines (lines : List (List Char)) : Prop :=
  (∀ line ∈ linesIn (some .image) none lines, '+' ∉ line) ∧
    ∀ line ∈ linesIn (some .symbols) none lines, line.head? ≠ some '+'

section Unsigned

variable {address count : Nat} {line : List Char} {lines : List (List Char)} {bytes : List UInt8}
  {r : LabelRecord} {records : List LabelRecord}

private theorem IsColumn.plus_notMem {width n : Nat} {cs : List Char}
    (hColumn : IsColumn width n cs) :
    '+' ∉ cs :=
  Text.plus_notMem_of_numberOf? hColumn.2

private theorem IsImageLine.plus_notMem (hLine : IsImageLine IsColumn address line bytes) :
    '+' ∉ line := by
  rcases hLine with ⟨front, data, rfl, hFront, hData⟩
  have hEnd : '+' ∉ data := by
    rcases hData with ⟨_, _, -, hData⟩ | ⟨_, -, hData⟩
    · exact hData.plus_notMem
    · exact hData.plus_notMem
  simp [hFront.plus_notMem, hEnd]

private theorem IsImageLine.isColumn (hLine : IsImageLine IsSignedColumn address line bytes)
    (hPlus : '+' ∉ line) : IsImageLine IsColumn address line bytes := by
  rcases hLine with ⟨front, data, rfl, hFront, hData⟩
  have hColumn {width n : Nat} {cs : List Char} (hSigned : IsSignedColumn width n cs)
      (hMem : '+' ∉ cs) : IsColumn width n cs :=
    (isColumn_iff_of_isSignedColumn hSigned).2 fun hHead => hMem (List.mem_of_head? hHead)
  have hPlus' : '+' ∉ front ∧ '+' ∉ data := by simpa using hPlus
  refine ⟨front, data, rfl, hColumn hFront hPlus'.1, ?_⟩
  rcases hData with ⟨high, low, hBytes, hData⟩ | ⟨byte, hBytes, hData⟩
  · exact .inl ⟨high, low, hBytes, hColumn hData hPlus'.2⟩
  · exact .inr ⟨byte, hBytes, hColumn hData hPlus'.2⟩

private theorem areImageLines_isColumn_iff
    (hLines : AreImageLines IsSignedColumn count lines bytes) :
    AreImageLines IsColumn count lines bytes ↔ ∀ line ∈ lines, '+' ∉ line := by
  constructor
  · clear hLines
    intro hColumns
    induction hColumns with
    | nil => simp
    | last hLine => simpa using hLine.plus_notMem
    | word hLine hRest ih => exact List.forall_mem_cons.2 ⟨hLine.plus_notMem, ih⟩
  · intro hPlus
    induction hLines with
    | nil => exact .nil
    | last hLine => exact .last (hLine.isColumn (hPlus _ (by simp)))
    | word hLine hRest ih =>
        rcases List.forall_mem_cons.1 hPlus with ⟨hHere, hBehind⟩
        exact .word (hLine.isColumn hHere) (ih hBehind)

private theorem IsHeading.head?_ne_plus (hLine : IsHeading line) : line.head? ≠ some '+' := by
  rcases hLine with ⟨front, back, rfl, -, hFront, -⟩
  intro hPlus
  cases front with
  | nil => cases hFront
  | cons c front =>
      obtain rfl : c = '+' := Option.some.inj hPlus
      have hNoBlank : ∀ d ∈ ('+' :: front).head?, Text.isBlank d = false := by
        simp only [List.head?_cons, Option.mem_def, Option.some.injEq, forall_eq']
        rfl
      rcases Text.exists_eq_trim_append hNoBlank with ⟨blanks, hFront', -⟩
      rw [hFront] at hFront'
      exact absurd (List.cons.inj hFront').1 (by decide)

private theorem IsSymbolLine.head?_ne_plus (hLine : IsSymbolLine IsColumn line r) :
    line.head? ≠ some '+' := by
  rcases hLine with ⟨digits, front, back, rfl, hDigits, -⟩
  intro hPlus
  cases digits with
  | nil => cases hDigits.1
  | cons c digits => exact hDigits.plus_notMem (List.mem_of_head? hPlus)

private theorem IsSymbolLine.isColumn (hLine : IsSymbolLine IsSignedColumn line r)
    (hPlus : line.head? ≠ some '+') : IsSymbolLine IsColumn line r := by
  rcases hLine with ⟨digits, front, back, rfl, hDigits, hRest⟩
  refine ⟨digits, front, back, rfl, (isColumn_iff_of_isSignedColumn hDigits).2 ?_, hRest⟩
  intro hHead
  refine hPlus ?_
  rw [List.head?_append, hHead]
  rfl

private theorem areSymbolLines_isColumn_iff (hLines : AreSymbolLines IsSignedColumn lines records) :
    AreSymbolLines IsColumn lines records ↔ ∀ line ∈ lines, line.head? ≠ some '+' := by
  constructor
  · clear hLines
    intro hColumns
    induction hColumns with
    | nil => simp
    | heading hLine hRest ih => exact List.forall_mem_cons.2 ⟨hLine.head?_ne_plus, ih⟩
    | label hLine hRest ih => exact List.forall_mem_cons.2 ⟨hLine.head?_ne_plus, ih⟩
  · intro hPlus
    induction hLines with
    | nil => exact .nil
    | heading hLine hRest ih => exact .heading hLine (ih (List.forall_mem_cons.1 hPlus).2)
    | label hLine hRest ih =>
        rcases List.forall_mem_cons.1 hPlus with ⟨hHere, hBehind⟩
        exact .label (hLine.isColumn hHere) (ih hBehind)

/-- Of the lines that the reader takes, those without signs are as they are meant. -/
theorem isTextualFile_isColumn_iff {image : List UInt8} {labels : Option (List LabelRecord)}
    (hFile : IsTextualFile IsSignedColumn lines image labels) :
    IsTextualFile IsColumn lines image labels ↔ UnsignedLines lines := by
  rw [UnsignedLines, ← areImageLines_isColumn_iff hFile.imageLines,
    ← areSymbolLines_isColumn_iff hFile.symbolLines]
  constructor
  · intro hColumns
    exact ⟨hColumns.imageLines, hColumns.symbolLines⟩
  · rintro ⟨hImage, hSymbols⟩
    exact ⟨hFile.front, hFile.other, hImage, hFile.fits, hFile.begun, hSymbols⟩

end Unsigned

/-! ## The reader -/

namespace ObjectFile

/-- The reader gives an object file exactly if the first line names the format and the
others are those of a file, with its image and its labels. -/
theorem ofTextual?_eq_some_iff {text : String} {o : ObjectFile} :
    ofTextual? text = some o ↔
      ∃ lines labels, meaningfulLines text.toList = textualHeader.toList :: lines ∧
        IsTextualFile IsSignedColumn lines o.image labels ∧
        Option.Rel SymbolTable.MadeOf o.symbols labels := by
  have hTrimmed : ∀ line ∈ meaningfulLines text.toList, Text.trim line = line :=
    fun line => trim_of_mem_meaningfulLines
  unfold ofTextual?
  revert hTrimmed
  rcases meaningfulLines text.toList with _ | ⟨first, lines⟩
  · simp
  · intro hTrimmed
    have hRest : ∀ line ∈ lines, Text.trim line = line :=
      fun line hLine => hTrimmed line (List.mem_cons_of_mem first hLine)
    have hRead : (∃ labels, IsTextualFile IsSignedColumn lines o.image labels ∧
        Option.Rel SymbolTable.MadeOf o.symbols labels) ↔
          readLines? none 0 none lines = some (o.image, o.symbols) := by
      rw [← readLines?_eq_some_iff_isTextualFile hRest]
      exact and_iff_left o.fits
    by_cases hFirst : first = textualHeader.toList
    · simp only [if_pos hFirst, Option.bind_eq_bind, Option.bind_eq_some_iff, Prod.exists]
      constructor
      · rintro ⟨image, symbols, hLines, o', hBytes, hSome⟩
        obtain rfl := Option.some.inj hSome
        obtain rfl := (ofBytes?_eq_some_iff.1 hBytes).1
        rcases hRead.2 hLines with ⟨labels, hFile⟩
        exact ⟨lines, labels, by rw [hFirst], hFile⟩
      · rintro ⟨lines', labels, hLines, hFile⟩
        obtain rfl := (List.cons.inj hLines).2
        exact ⟨o.image, o.symbols, hRead.1 ⟨labels, hFile⟩, ⟨o.image, none, o.fits⟩,
          ofBytes?_eq_some_iff.2 ⟨rfl, rfl⟩, rfl⟩
    · simp only [if_neg hFirst, reduceCtorEq, false_iff]
      rintro ⟨lines', labels, hLines, -⟩
      exact hFirst (List.cons.inj hLines).1

/-- A text is accepted exactly if its first line names the format and its other lines
are those of a file whose columns may have a sign in place of the first digit: every
line stands in a section for an image or for a table. A line of the image has its
address, which is that of the start of a program and the bytes before, a space, and a
word or, in the last line only, a byte. A line of a table heads it or has an address, a
bar and a label. The image is then made of the numbers of the columns, in order, and the
table is that of the labels. The columns are nothing but digits exactly where no column
of the text begins with a sign. -/
theorem ofTextual?_accepts_lines (text : String) (o : ObjectFile) :
    (ofTextual? text = some o ↔
      ∃ lines labels, meaningfulLines text.toList = textualHeader.toList :: lines ∧
        IsTextualFile IsSignedColumn lines o.image labels ∧
        Option.Rel SymbolTable.MadeOf o.symbols labels) ∧
    ∀ (lines : List (List Char)) (labels : Option (List LabelRecord)),
      IsTextualFile IsSignedColumn lines o.image labels →
        (IsTextualFile IsColumn lines o.image labels ↔ UnsignedLines lines) :=
  ⟨ofTextual?_eq_some_iff, fun _ _ => isTextualFile_isColumn_iff⟩

/-- The columns of the text with comments and sections in another order are nothing but
digits. -/
theorem ofTextual?_accepts_lines_loose :
    ∃ o lines labels, ofTextual? looseText = some o ∧ o.image = [0x00, 0xE0, 0x12] ∧
      meaningfulLines looseText.toList = textualHeader.toList :: lines ∧
      IsTextualFile IsColumn lines o.image labels := by
  have hLines : meaningfulLines looseText.toList = textualHeader.toList ::
      [".SYMBOL".toList, "0202|  Main Loop".toList, ".TEXT".toList, "0200 00e0".toList,
        "0202 12".toList, ".SYMBOL".toList] := by decide +kernel
  have hRead : (ofTextual? looseText).map (·.image) = some [0x00, 0xE0, 0x12] := by
    decide +kernel
  rcases Option.map_eq_some_iff.1 hRead with ⟨o, hObject, hImage⟩
  rcases (ofTextual?_accepts_lines looseText o).1.1 hObject with ⟨lines, labels, hRest, hFile, -⟩
  obtain rfl := (List.cons.inj (hLines.symm.trans hRest)).2
  have hUnsigned : UnsignedLines [".SYMBOL".toList, "0202|  Main Loop".toList, ".TEXT".toList,
      "0200 00e0".toList, "0202 12".toList, ".SYMBOL".toList] := by
    unfold UnsignedLines
    decide +kernel
  exact ⟨o, _, labels, hObject, hImage, hLines,
    ((ofTextual?_accepts_lines looseText o).2 _ labels hFile).2 hUnsigned⟩

/-- A text with a sign in place of the first digit of an address. -/
def signedText : String := "CHIP-8 OBJ FILE
.TEXT
+200 00E0"

/-- It is accepted, although its line does not begin with four digits. -/
theorem not_isColumn_signed :
    (∃ o, ofTextual? signedText = some o ∧ o.image = [0x00, 0xE0]) ∧
      meaningfulLines signedText.toList =
        [textualHeader.toList, ".TEXT".toList, "+200 00E0".toList] ∧
      ∀ address bytes, ¬ IsImageLine IsColumn address "+200 00E0".toList bytes := by
  have hRead : (ofTextual? signedText).map (·.image) = some [0x00, 0xE0] := by decide +kernel
  rcases Option.map_eq_some_iff.1 hRead with ⟨o, hObject, hImage⟩
  exact ⟨⟨o, hObject, hImage⟩, by decide +kernel,
    fun address bytes hLine => hLine.plus_notMem (by decide)⟩

end ObjectFile

end Chip8.Asm

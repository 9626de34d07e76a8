import Chip8.Proofs.Asm.LabelText
import Chip8.Proofs.Text.Hexadecimal

/-!
# Text files and the object files they hold

A text file is read back line by line. Every line of an image or of a table begins with
a digit, so that none begins a section. Lines of an image have nothing to strip, and
their addresses run on as the reader counts. In a line of a table the first bar is the
one that was written, whatever bars the label has, and no address reads `ADDR`. Only in
front of an empty label is there something to strip, the space behind the bar.

So every object file is read back whose labels a line can hold, whatever its image is.
Those that were assembled, made from bytes or read from a text are of this kind.

## Main definitions

* `column`, `lineOf` — what the lines are made of.
* `LabelRecord.line` — the line of a label.
* `meaningful` — what is left of written lines.
* `ObjectFile.Obtained` — the ways to come by an object file, the binary form apart.

## Main results

* `readLines?_imageLines`, `readLines?_symbolLines` — what is read from the lines
  written.
* `ofTextual?_of_writable` — object files whose labels lines can hold.
* `ofTextual?_toTextual` — object files that were obtained in any of these ways.
-/

namespace Chip8.Asm

/-! ## Columns -/

/-- The column of a number, as it is written. -/
def column (width n : Nat) : List Char := (Text.hex width n).toList

section Column

variable {width n : Nat}

private theorem notMem_column (hn : n < 65536) {c : Char} (hc : Text.digit? 16 c = none) :
    c ∉ column width n := by
  intro hMem
  have hDigit := Text.digit?_of_mem_hex hn c hMem
  rw [hc] at hDigit
  cases hDigit

private theorem column_ne_nil : column width n ≠ [] := by
  rw [column, Text.toList_hex]
  exact List.append_ne_nil_of_right_ne_nil _ (Text.numeral_ne_nil 16 n)

private theorem writable_column (hn : n < 65536) : Writable (column width n) where
  trimmed := by
    refine Text.trim_eq_self_of_forall fun c hc => ?_
    obtain ⟨hLow, hHigh⟩ := Text.toNat_of_digit? (Text.digit?_of_mem_hex hn c hc)
    exact Text.isBlank_of_visible (by omega) (by omega)
  oneLine := notMem_column hn (by decide)
  noComment := fun hPart => notMem_column hn (by decide : Text.digit? 16 '/' = none)
    (hPart.mem (by simp))

/-- What begins with a column does not begin a section. -/
theorem head?_column_append (hn : n < 65536) (rest : List Char) :
    (column width n ++ rest).head? ≠ some '.' := by
  cases hColumn : column width n with
  | nil => exact absurd hColumn column_ne_nil
  | cons c cs =>
      intro hDot
      obtain rfl : c = '.' := Option.some.inj hDot
      exact notMem_column hn (by decide : Text.digit? 16 '.' = none) (by rw [hColumn]; simp)

private theorem byteLength_column (hn : n < 65536) (hWidth : 0 < width) (hFits : n < 16 ^ width) :
    Text.byteLength (column width n) = width := by
  have hDigits : ∀ c ∈ column width n, (Text.digit? 16 c).isSome := Text.digit?_of_mem_hex hn
  rw [Text.byteLength_of_digit? hDigits]
  exact Text.length_hex hWidth hFits

end Column

/-- A column is read as its number. -/
theorem readHex?_column {width n : Nat} (hn : n < 65536) (hWidth : 0 < width)
    (hFits : n < 16 ^ width) : readHex? width (column width n) = some (UInt16.ofNat n) := by
  rw [readHex?, if_pos (byteLength_column hn hWidth hFits), column, Text.toList_hex,
    Text.readWord_replicate_zero_numeral (by omega) (by omega) hn]
  rfl

private theorem readHex?_column_word (word : UInt16) :
    readHex? 4 (column 4 word.toNat) = some word := by
  rw [readHex?_column word.toNat_lt (by omega) word.toNat_lt, UInt16.ofNat_toNat]

/-! ## Lines -/

/-- Nothing is stripped from a line that has neither comments nor white space at its
ends. -/
theorem strip_of_writable {line : List Char} (h : Writable line) : strip line = line := by
  rw [strip, Text.cut?_eq_none_iff.2 h.noComment]
  exact h.trimmed

/-- A line of an address and something else, with a mark between the two. -/
def lineOf (address : Nat) (mark rest : List Char) : List Char := column 4 address ++ mark ++ rest

section LineOf

variable {address : Nat} {mark rest : List Char}

/-- Such a line does not begin a section. -/
theorem head?_lineOf (hAddress : address < 65536) :
    (lineOf address mark rest).head? ≠ some '.' := by
  rw [lineOf, List.append_assoc]
  exact head?_column_append hAddress _

private theorem oneLine_lineOf (hAddress : address < 65536) (hMark : '\n' ∉ mark)
    (hRest : '\n' ∉ rest) :
    '\n' ∉ lineOf address mark rest := by
  simp only [lineOf, List.mem_append, not_or]
  exact ⟨⟨notMem_column hAddress (by decide), hMark⟩, hRest⟩

private theorem noComment_lineOf (hAddress : address < 65536) (hMark : '/' ∉ mark)
    (hRest : ¬ ['/', '/'] <:+: rest) : ¬ ['/', '/'] <:+: lineOf address mark rest := by
  have hFront : '/' ∉ column 4 address ++ mark := by
    rw [List.mem_append, not_or]
    exact ⟨notMem_column hAddress (by decide), hMark⟩
  rw [← Text.cut?_eq_none_iff] at hRest ⊢
  rw [lineOf, Text.cut?_append_of_notMem hFront, hRest]
  rfl

/-- Such a line ends in white space only if there is nothing behind the mark. -/
theorem writable_lineOf (hAddress : address < 65536) (hNewline : '\n' ∉ mark) (hSlash : '/' ∉ mark)
    (hRest : Writable rest) (hNe : rest ≠ []) : Writable (lineOf address mark rest) where
  trimmed := Text.trim_append_append (writable_column hAddress).trimmed hRest.trimmed
    column_ne_nil hNe mark
  oneLine := oneLine_lineOf hAddress hNewline hRest.oneLine
  noComment := noComment_lineOf hAddress hSlash hRest.noComment

end LineOf

/-- The line that begins a section. -/
theorem readLines?_section {place : Option Section} {count : Nat} {t : Option SymbolTable}
    {line : List Char} (hDot : line.head? = some '.') (ls : List (List Char)) :
    readLines? place count t (line :: ls) = readLines? (some (Section.ofLine line)) count
      (if Section.ofLine line = .symbols then some (t.getD .empty) else t) ls := by
  conv_lhs => rw [readLines?.eq_def]
  exact if_pos hDot

/-! ## Lines of the image -/

/-- The address of a line says how many bytes come before, so the line is read by its
data. -/
theorem readImageLine?_lineOf {count : Nat} (hPlace : programStart + count < 65536)
    (hEven : count % 2 = 0) (data : List Char) :
    readImageLine? count (lineOf (programStart + count) [' '] data) =
      if Text.byteLength data = 4 then (readHex? 4 data).map wordBytes
      else if Text.byteLength data = 2 then (readHex? 2 data).map fun w => [lowByte w]
      else none := by
  have hCut : Text.cut? [' '] (lineOf (programStart + count) [' '] data) =
      some (column 4 (programStart + count), data) := by
    rw [lineOf, List.append_assoc]
    exact Text.cut?_singleton (notMem_column hPlace (by decide)) data
  have hAddress : (UInt16.ofNat (programStart + count)).toNat = programStart + count := by
    rw [UInt16.toNat_ofNat', Nat.mod_eq_of_lt hPlace]
  simp only [readImageLine?, hCut, readHex?_column hPlace (by omega : 0 < 4) hPlace, hAddress,
    hEven, Option.bind_eq_bind, Option.bind_some, and_self, if_true]

private theorem readImageLine?_word {count : Nat} (hPlace : programStart + count < 65536)
    (hEven : count % 2 = 0) (word : UInt16) :
    readImageLine? count (lineOf (programStart + count) [' '] (column 4 word.toNat)) =
      some (wordBytes word) := by
  have hLength := byteLength_column word.toNat_lt (by omega : 0 < 4) word.toNat_lt
  rw [readImageLine?_lineOf hPlace hEven, if_pos hLength, readHex?_column_word]
  rfl

private theorem readImageLine?_byte {count : Nat} (hPlace : programStart + count < 65536)
    (hEven : count % 2 = 0) (byte : UInt8) :
    readImageLine? count (lineOf (programStart + count) [' '] (column 2 byte.toNat)) =
      some [byte] := by
  have hByte := byte.toNat_lt
  have hSmall : byte.toNat < 65536 := by omega
  have hLength := byteLength_column hSmall (by omega : 0 < 2) byte.toNat_lt
  have hLow : lowByte (UInt16.ofNat byte.toNat) = byte := by
    refine UInt8.toNat_inj.1 ?_
    rw [toNat_lowByte, UInt16.toNat_ofNat']
    omega
  rw [readImageLine?_lineOf hPlace hEven, hLength, if_neg (by omega), if_pos rfl,
    readHex?_column hSmall (by omega) byte.toNat_lt, Option.map_some, hLow]

/-- The line of two bytes has the column of their word. -/
theorem toList_wordLine (address : Nat) (high low : UInt8) :
    (Text.hex 4 address ++ " " ++ Text.hex 2 high.toNat ++ Text.hex 2 low.toNat).toList =
      lineOf address [' '] (column 4 (joinBytes high low).toNat) := by
  simp only [lineOf, column, String.toList_append, Text.toList_hex_joinBytes, List.append_assoc]
  rfl

private theorem toList_byteLine (address : Nat) (byte : UInt8) :
    (Text.hex 4 address ++ " " ++ Text.hex 2 byte.toNat).toList =
      lineOf address [' '] (column 2 byte.toNat) := by
  simp only [lineOf, column, String.toList_append, List.append_assoc]
  rfl

private theorem writable_of_mem_imageLines {address : Nat} {image : List UInt8}
    (hAddress : address + image.length ≤ 65536) :
    ∀ line ∈ imageLines address image, Writable line.toList ∧ line.toList ≠ [] := by
  have hRow : ∀ address width n, address < 65536 → n < 65536 →
      Writable (lineOf address [' '] (column width n)) ∧
        lineOf address [' '] (column width n) ≠ [] :=
    fun address width n hAddress hn =>
      ⟨writable_lineOf hAddress (by decide) (by decide) (writable_column hn) column_ne_nil,
        List.append_ne_nil_of_right_ne_nil _ column_ne_nil⟩
  fun_induction imageLines address image with
  | case1 address high low rest ih =>
      simp only [List.length_cons] at hAddress
      rw [List.forall_mem_cons, toList_wordLine]
      exact ⟨hRow address 4 _ (by omega) (joinBytes high low).toNat_lt, ih (by omega)⟩
  | case2 address byte =>
      have hByte := byte.toNat_lt
      simp only [List.length_cons] at hAddress
      rw [List.forall_mem_cons, toList_byteLine]
      exact ⟨hRow address 2 _ (by omega) (by omega), by simp⟩
  | case3 address => simp

/-- The bytes of a line that follow stand in front of those that are read behind it. -/
theorem readLines?_image_cons {count : Nat} {t : Option SymbolTable} {line : List Char}
    {bytes : List UInt8} (hDot : line.head? ≠ some '.')
    (hLine : readImageLine? count line = some bytes) (ls : List (List Char)) :
    readLines? (some .image) count t (line :: ls) =
      (readLines? (some .image) (count + bytes.length) t ls).map
        fun p => (bytes ++ p.1, p.2) := by
  rw [readLines?, if_neg hDot]
  simp only [hLine, Option.bind_eq_bind, Option.bind_some]
  cases readLines? (some .image) (count + bytes.length) t ls <;> rfl

/-- An image is read back from its lines. -/
theorem readLines?_imageLines {address count : Nat} {image : List UInt8}
    (hAddress : address = programStart + count) (hEven : count % 2 = 0)
    (hFits : address + image.length ≤ 65536) (t : Option SymbolTable)
    (ls : List (List Char)) :
    readLines? (some .image) count t ((imageLines address image).map String.toList ++ ls) =
      (readLines? (some .image) (count + image.length) t ls).map
        fun p => (image ++ p.1, p.2) := by
  fun_induction imageLines address image generalizing count with
  | case1 address high low rest ih =>
      obtain rfl := hAddress
      simp only [List.length_cons] at hFits
      have hPlace : programStart + count < 65536 := by omega
      have hRead := readImageLine?_word hPlace hEven (joinBytes high low)
      have hBytes : wordBytes (joinBytes high low) = [high, low] := by
        rw [wordBytes, highByte_joinBytes, lowByte_joinBytes]
      have hCount : count + 2 + rest.length = count + (high :: low :: rest).length := by
        simp only [List.length_cons]
        omega
      rw [List.map_cons, List.cons_append, toList_wordLine,
        readLines?_image_cons (head?_lineOf hPlace) hRead, hBytes]
      show (readLines? (some .image) (count + 2) t _).map _ = _
      rw [ih (by omega) (by omega) (by omega), Option.map_map, hCount]
      rfl
  | case2 address byte =>
      obtain rfl := hAddress
      simp only [List.length_cons] at hFits
      have hPlace : programStart + count < 65536 := by omega
      have hRead := readImageLine?_byte hPlace hEven byte
      rw [List.map_cons, List.cons_append, toList_byteLine,
        readLines?_image_cons (head?_lineOf hPlace) hRead]
      rfl
  | case3 address =>
      show readLines? (some .image) count t ls = (readLines? (some .image) count t ls).map id
      rw [Option.map_id_fun, id]

/-! ## Lines of a table -/

/-- The line of a label. -/
def LabelRecord.line (r : LabelRecord) : String :=
  Text.hex 4 r.address.toNat ++ " | " ++ r.name

private theorem LabelRecord.toList_line (r : LabelRecord) :
    r.line.toList = lineOf r.address.toNat [' ', '|', ' '] r.name.toList := by
  simp only [line, lineOf, column, String.toList_append]
  rfl

private theorem LabelRecord.newline_notMem_line {r : LabelRecord} (hr : Writable r.name.toList) :
    '\n' ∉ r.line.toList := by
  rw [r.toList_line]
  exact oneLine_lineOf r.address.toNat_lt (by decide) hr.oneLine

/-- Stripping a line of a table leaves the bar and what it takes to read the label. -/
theorem LabelRecord.exists_strip_line {r : LabelRecord} (hr : Writable r.name.toList) :
    ∃ tail, strip r.line.toList = lineOf r.address.toNat [' ', '|'] tail ∧
      Text.trim tail = r.name.toList := by
  have hAddress := r.address.toNat_lt
  rw [r.toList_line]
  by_cases hName : r.name.toList = []
  · -- the space behind the bar is at the end of the line
    refine ⟨[], ?_, hName.symm⟩
    have hCut := Text.cut?_eq_none_iff.2 (noComment_lineOf hAddress
      (by decide : '/' ∉ [' ', '|', ' ']) hr.noComment)
    have hEnd : lineOf r.address.toNat [' ', '|', ' '] r.name.toList =
        column 4 r.address.toNat ++ [' '] ++ ['|'] ++ [' '] := by
      rw [lineOf, hName]
      simp
    rw [strip, hCut, hEnd]
    show Text.trim (column 4 r.address.toNat ++ [' '] ++ ['|'] ++ [' ']) = _
    rw [Text.trim_append_blank rfl, Text.trim_append_append
      (writable_column hAddress).trimmed rfl column_ne_nil (by simp)]
    simp [lineOf]
  · refine ⟨' ' :: r.name.toList, ?_, ?_⟩
    · rw [strip_of_writable (writable_lineOf hAddress (by decide) (by decide) hr hName)]
      simp [lineOf]
    · rw [Text.trim_cons_blank rfl, hr.trimmed]

/-- A line of an address, a bar and a label is read as that label with that address. -/
theorem readSymbolLine?_lineOf (t : SymbolTable) (address : UInt16) (tail : List Char) :
    readSymbolLine? t (lineOf address.toNat [' ', '|'] tail) =
      some (t.insert (String.ofList (Text.trim tail)) address) := by
  have hAddress := address.toNat_lt
  have hBar : '|' ∉ column 4 address.toNat ++ [' '] := by
    rw [List.mem_append, not_or]
    exact ⟨notMem_column hAddress (by decide), by decide⟩
  have hCut : Text.cut? ['|'] (lineOf address.toNat [' ', '|'] tail) =
      some (column 4 address.toNat ++ [' '], tail) := by
    rw [← Text.cut?_singleton hBar tail]
    simp [lineOf]
  have hTrim : Text.trim (column 4 address.toNat ++ [' ']) = column 4 address.toNat := by
    rw [Text.trim_append_blank rfl, (writable_column hAddress).trimmed]
  have hHeading : column 4 address.toNat ≠ "ADDR".toList := by
    intro hEq
    have hMem : 'R' ∈ column 4 address.toNat := by
      rw [hEq]
      decide
    exact notMem_column hAddress (by decide) hMem
  simp only [readSymbolLine?, hCut, hTrim, hHeading, false_and, if_false,
    readHex?_column_word, Option.bind_eq_bind, Option.bind_some]
  rfl

private theorem readLines?_symbols_cons {count : Nat} {t t' : SymbolTable} {line : List Char}
    (hDot : line.head? ≠ some '.') (hLine : readSymbolLine? t line = some t')
    (ls : List (List Char)) : readLines? (some .symbols) count (some t) (line :: ls) =
      readLines? (some .symbols) count (some t') ls := by
  rw [readLines?, if_neg hDot]
  simp only [Option.getD_some, hLine, Option.bind_eq_bind, Option.bind_some]

/-- The lines of records enter these records one after the other. -/
theorem readLines?_labelLines {count : Nat} {records : List LabelRecord}
    (hRecords : ∀ r ∈ records, Writable r.name.toList) (t : SymbolTable) :
    readLines? (some .symbols) count (some t) (records.map fun r => strip r.line.toList) =
      some ([], some (t.withRecords records)) := by
  induction records generalizing t with
  | nil => rfl
  | cons r records ih =>
      obtain ⟨tail, hStrip, hTrim⟩ := LabelRecord.exists_strip_line (hRecords r (by simp))
      have hRead := readSymbolLine?_lineOf t r.address tail
      rw [hTrim, String.ofList_toList] at hRead
      rw [List.map_cons, hStrip, readLines?_symbols_cons (head?_lineOf r.address.toNat_lt) hRead,
        ih fun s hs => hRecords s (by simp [hs])]
      rfl

/-! ## Files -/

/-- What is left of written lines. -/
def meaningful (ls : List String) : List (List Char) :=
  (ls.map fun line => strip line.toList).filter (· ≠ [])

private theorem meaningful_append (front back : List String) :
    meaningful (front ++ back) = meaningful front ++ meaningful back := by
  rw [meaningful, List.map_append, List.filter_append]
  rfl

/-- The meaningful lines of a text are what is left of the lines that make it up. -/
theorem meaningfulLines_join {ls : List String} (h : ∀ line ∈ ls, '\n' ∉ line.toList) :
    meaningfulLines (String.join (ls.map (· ++ "\n"))).toList = meaningful ls := by
  have hText : (String.join (ls.map (· ++ "\n"))).toList =
      (ls.map String.toList).flatMap (· ++ ['\n']) := by
    rw [String.toList_join, List.flatMap_map, List.flatMap_map]
    refine List.flatMap_congr fun line _ => ?_
    rw [String.toList_append]
    rfl
  rw [meaningfulLines, hText, Text.lines_flatMap_newline (by simpa using h), List.map_append,
    List.filter_append, List.map_map]
  have hEmpty : List.filter (· ≠ []) (List.map strip [[]]) = [] := rfl
  rw [hEmpty, List.append_nil]
  rfl

/-- The lines of an image are left as they are. -/
theorem meaningful_imageLines {address : Nat} {image : List UInt8}
    (hAddress : address + image.length ≤ 65536) :
    meaningful (imageLines address image) = (imageLines address image).map String.toList := by
  have hLines := writable_of_mem_imageLines hAddress
  have hStrip : ((imageLines address image).map fun line => strip line.toList) =
      (imageLines address image).map String.toList :=
    List.map_congr_left fun line hLine => strip_of_writable (hLines line hLine).1
  rw [meaningful, hStrip, List.filter_eq_self]
  intro line hLine
  obtain ⟨s, hs, rfl⟩ := List.mem_map.1 hLine
  simpa using (hLines s hs).2

section Table

variable {t : SymbolTable}

private theorem symbolLines_eq (t : SymbolTable) :
    symbolLines t = [".SYMBOL", "ADDR | LABEL"] ++ t.records.map LabelRecord.line := by
  rw [symbolLines, SymbolTable.records, List.map_map]
  rfl

private theorem newline_notMem_symbolLines (ht : t.Writable) :
    ∀ line ∈ symbolLines t, '\n' ∉ line.toList := by
  rw [symbolLines_eq, List.forall_mem_append]
  refine ⟨by decide, fun line hLine => ?_⟩
  obtain ⟨r, hr, rfl⟩ := List.mem_map.1 hLine
  exact LabelRecord.newline_notMem_line (ht r hr)

/-- No line of a table is empty when it is stripped. -/
theorem meaningful_symbolLines (ht : t.Writable) : meaningful (symbolLines t) =
    ".SYMBOL".toList :: "ADDR | LABEL".toList ::
      t.records.map fun r => strip r.line.toList := by
  have hHeading : meaningful [".SYMBOL", "ADDR | LABEL"] =
      [".SYMBOL".toList, "ADDR | LABEL".toList] := rfl
  have hMap : ((t.records.map LabelRecord.line).map fun line => strip line.toList) =
      t.records.map fun r => strip r.line.toList := by
    simp only [List.map_map, Function.comp_def]
  have hRecords : meaningful (t.records.map LabelRecord.line) =
      t.records.map fun r => strip r.line.toList := by
    rw [meaningful, hMap, List.filter_eq_self]
    intro line hLine
    obtain ⟨r, hr, rfl⟩ := List.mem_map.1 hLine
    obtain ⟨tail, hStrip, -⟩ := LabelRecord.exists_strip_line (ht r hr)
    simp [hStrip, lineOf]
  rw [symbolLines_eq, meaningful_append, hHeading, hRecords, List.cons_append,
    List.cons_append, List.nil_append]

/-- A table is read back from its lines, behind whatever section they stand. -/
theorem readLines?_symbolLines (ht : t.Writable) (place : Option Section) (count : Nat) :
    readLines? place count none (meaningful (symbolLines t)) = some ([], some t) := by
  have hSection : Section.ofLine ".SYMBOL".toList = .symbols := by decide
  have hHeading : readSymbolLine? .empty "ADDR | LABEL".toList = some .empty := rfl
  rw [meaningful_symbolLines ht, readLines?_section (by decide), hSection, if_pos rfl,
    Option.getD_none, readLines?_symbols_cons (by decide) hHeading, readLines?_labelLines ht,
    ← SymbolTable.ofRecords_eq, SymbolTable.ofRecords_of_perm (.refl _)]

end Table

namespace ObjectFile

variable {o : ObjectFile}

/-- Addresses of the image have four digits. -/
theorem place_le (o : ObjectFile) : programStart + o.image.length ≤ 65536 := by
  have hCapacity : o.image.length ≤ 3584 := o.fits
  show 512 + o.image.length ≤ 65536
  omega

/-- The lines of the table, if there is one. -/
def tableLines (o : ObjectFile) : List String := (o.symbols.map symbolLines).getD []

private theorem newline_notMem_tableLines (hSymbols : ∀ t, o.symbols = some t → t.Writable) :
    ∀ line ∈ o.tableLines, '\n' ∉ line.toList := by
  unfold tableLines
  cases ho : o.symbols with
  | none => simp
  | some t => exact newline_notMem_symbolLines (hSymbols t ho)

private theorem readLines?_tableLines (hSymbols : ∀ t, o.symbols = some t → t.Writable)
    (place : Option Section) (count : Nat) :
    readLines? place count none (meaningful o.tableLines) = some ([], o.symbols) := by
  unfold tableLines
  cases ho : o.symbols with
  | none => rfl
  | some t => exact readLines?_symbolLines (hSymbols t ho) place count

/-- The lines of an object file, as they are read. -/
theorem meaningfulLines_toTextual (hSymbols : ∀ t, o.symbols = some t → t.Writable) :
    meaningfulLines o.toTextual.toList = textualHeader.toList :: ".TEXT".toList ::
      ((imageLines programStart o.image).map String.toList ++ meaningful o.tableLines) := by
  have hLines : ∀ line ∈ [textualHeader, "", ".TEXT"] ++ imageLines programStart o.image ++ [""] ++
      o.tableLines, '\n' ∉ line.toList := by
    rw [List.forall_mem_append, List.forall_mem_append, List.forall_mem_append]
    exact ⟨⟨⟨by decide, fun line hLine =>
      (writable_of_mem_imageLines o.place_le line hLine).1.oneLine⟩, by decide⟩,
      newline_notMem_tableLines hSymbols⟩
  have hFront : meaningful [textualHeader, "", ".TEXT"] =
      [textualHeader.toList, ".TEXT".toList] := rfl
  have hGap : meaningful [""] = [] := rfl
  show meaningfulLines (String.join (([textualHeader, "", ".TEXT"] ++
    imageLines programStart o.image ++ [""] ++ o.tableLines).map (· ++ "\n"))).toList = _
  rw [meaningfulLines_join hLines, meaningful_append, meaningful_append, meaningful_append,
    meaningful_imageLines o.place_le, hFront, hGap, List.append_nil]
  simp only [List.cons_append, List.nil_append]

/-- An object file whose labels lines can hold is read back. -/
theorem ofTextual?_of_writable (hSymbols : ∀ t, o.symbols = some t → t.Writable) :
    ofTextual? o.toTextual = some o := by
  have hSection : Section.ofLine ".TEXT".toList = .image := by decide
  have hRead : readLines? none 0 none (".TEXT".toList ::
      ((imageLines programStart o.image).map String.toList ++ meaningful o.tableLines)) =
        some (o.image, o.symbols) := by
    rw [readLines?_section (by decide), hSection, if_neg (by decide),
      readLines?_imageLines (Nat.add_zero programStart).symm (Nat.zero_mod 2) o.place_le,
      readLines?_tableLines hSymbols, Option.map_some, List.append_nil]
  have hBytes : ofBytes? o.image = some ⟨o.image, none, o.fits⟩ :=
    ofBytes?_eq_some_iff.2 ⟨rfl, rfl⟩
  rw [ofTextual?, meaningfulLines_toTextual hSymbols]
  simp only [if_true, hRead, hBytes, Option.bind_eq_bind, Option.bind_some]
  rfl

/-! ## Object files that come from elsewhere -/

/-- The ways to come by an object file, the binary form apart: it is assembled, with or
without its labels, made from bytes, or read from a text. -/
inductive Obtained : ObjectFile → Prop where
  | source {source : String} {o : ObjectFile} (h : ofSource source = .ok o) : Obtained o
  | statements {statements : List Statement} {o : ObjectFile}
      (h : ofStatements false statements = .ok o) : Obtained o
  | bytes {image : List UInt8} {o : ObjectFile} (h : ofBytes? image = some o) : Obtained o
  | textual {text : String} {o : ObjectFile} (h : ofTextual? text = some o) : Obtained o

/-- Lines can hold the labels of an object file that was obtained in one of these
ways. -/
theorem Obtained.writable {o : ObjectFile} (ho : o.Obtained) {t : SymbolTable}
    (ht : o.symbols = some t) : t.Writable := by
  cases ho with
  | source h => exact SymbolTable.writable_of_ofSource h ht
  | statements h =>
      obtain ⟨table, -, h⟩ := exists_of_bind_eq_ok h
      obtain ⟨_, -, -, hSymbols⟩ := ofResolved_eq_ok_iff.1 h
      rw [hSymbols] at ht
      cases ht
  | bytes h =>
      rw [(ofBytes?_eq_some_iff.1 h).2] at ht
      cases ht
  | textual h => exact SymbolTable.writable_of_ofTextual? h ht

/-- An object file that was assembled, made from bytes, or read from any text at all is
read back from the text that is written for it, with its image, its labels, and whether
it has a table. -/
theorem ofTextual?_toTextual {o : ObjectFile} (ho : o.Obtained) :
    ofTextual? o.toTextual = some o :=
  ofTextual?_of_writable fun _ ht => ho.writable ht

/-- A text with comments, sections in another order, and a label with a space in it. -/
def looseText : String :=
  "  CHIP-8 OBJ FILE // loose\n.SYMBOL\n\n0202|  Main Loop // here\n" ++
    ".TEXT\n0200 00e0\n 0202 12\n.SYMBOL"

theorem ofTextual?_toTextual_loose : ∃ o, ofTextual? looseText = some o ∧
    o.image = [0x00, 0xE0, 0x12] ∧ (o.symbols.bind (·.address? "main loop")) = some 0x202 ∧
    ofTextual? o.toTextual = some o := by
  have hRead : (ofTextual? looseText).map
      (fun o => (o.image, o.symbols.bind (·.address? "main loop"))) =
        some ([0x00, 0xE0, 0x12], some 0x202) := by decide +kernel
  obtain ⟨o, ho, hParts⟩ := Option.map_eq_some_iff.1 hRead
  obtain ⟨hImage, hLabel⟩ := Prod.mk.inj hParts
  exact ⟨o, ho, hImage, hLabel, ofTextual?_toTextual (.textual ho)⟩

end ObjectFile

end Chip8.Asm

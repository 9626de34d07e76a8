import Chip8.Proofs.Asm.BinaryFile

/-!
# The form of binary files

What stands in a binary file is said here without the reader: a header, an image with
its length in front, and labels with their number in front, in either order. The reader
accepts the files of this form and no other bytes, and the object file that it gives is
the one that the file says.

No byte marks the end of a file. A file that breaks off is refused all the same unless
it breaks off between two chunks, since chunks that stand at the front of a file are the
first of its chunks. Of a file that was written, there is one such place in front of its
end where an image has been read: the one between the image and the labels.

## Main definitions

* `IsShort`, `IsRecord`, `AreRecords`, `IsImageChunk`, `IsLabelChunk` — the parts of a
  file.
* `IsBinaryFile` — an image, and labels if there are any, behind a header.

## Main results

* `isImageChunk_iff`, `isLabelChunk_iff` — the forms of the chunks that are read.
* `readChunks?_flatMap_append` — chunks at the front are the first that are read.
* `ObjectFile.ofBinary?_eq_some_iff_isBinaryFile` — what is read.
* `ObjectFile.ofBinary?_prefix_iff` — what is read of a file that breaks off.
* `ObjectFile.ofBinary?_accepts_format` — both.
* `ObjectFile.not_isBinaryFile_emptyFile` — no header of eight bytes would do.
-/

namespace Chip8.Asm

/-! ## The parts of a file -/

/-- The two bytes of a number, the low one first. -/
def IsShort (n : Nat) (bytes : List UInt8) : Prop :=
  ∃ low high : UInt8, bytes = [low, high] ∧ n = low.toNat + 256 * high.toNat

/-- The bytes of a label: its address, the length of its name, and the name in UTF-8. -/
def IsRecord (r : LabelRecord) (bytes : List UInt8) : Prop :=
  ∃ address length name, bytes = address ++ (length ++ name) ∧ IsShort r.address.toNat address ∧
    IsShort name.length length ∧ Text.fromUtf8? name = some r.name

/-- The bytes of labels, one after the other. -/
inductive AreRecords : List LabelRecord → List UInt8 → Prop
  | nil : AreRecords [] []
  | cons {r : LabelRecord} {records : List LabelRecord} {first rest : List UInt8}
      (hFirst : IsRecord r first) (hRest : AreRecords records rest) :
      AreRecords (r :: records) (first ++ rest)

/-- The bytes of an image that fits, behind their number. -/
def IsImageChunk (image bytes : List UInt8) : Prop :=
  ∃ length, bytes = 0x00 :: (length ++ image) ∧ IsShort image.length length ∧ image.length ≤ 3584

/-- Labels, behind their number. -/
def IsLabelChunk (records : List LabelRecord) (bytes : List UInt8) : Prop :=
  ∃ count labels, bytes = 0x01 :: (count ++ labels) ∧ IsShort records.length count ∧
    AreRecords records labels

/-- A file: an image behind the header, and labels, if there are any, on one side of
it. -/
inductive IsBinaryFile (header image : List UInt8) : Option (List LabelRecord) → List UInt8 → Prop
  | plain {chunk : List UInt8} (hImage : IsImageChunk image chunk) :
      IsBinaryFile header image none (header ++ chunk)
  | labelled {records : List LabelRecord} {chunk labels : List UInt8}
      (hImage : IsImageChunk image chunk) (hLabels : IsLabelChunk records labels) :
      IsBinaryFile header image (some records) (header ++ (chunk ++ labels))
  | labelledInFront {records : List LabelRecord} {chunk labels : List UInt8}
      (hImage : IsImageChunk image chunk) (hLabels : IsLabelChunk records labels) :
      IsBinaryFile header image (some records) (header ++ (labels ++ chunk))

variable {bytes image header : List UInt8} {records : List LabelRecord}

private theorem isShort_iff {n : Nat} : IsShort n bytes ↔ n ≤ 65535 ∧ bytes = shortBytes n := by
  constructor
  · rintro ⟨low, high, rfl, rfl⟩
    have hLow := low.toNat_lt
    have hHigh := high.toNat_lt
    exact ⟨by omega, (shortBytes_of_bytes low high).symm⟩
  · rintro ⟨hSmall, rfl⟩
    refine ⟨_, _, rfl, ?_⟩
    have hLow : (UInt8.ofNat (n % 256)).toNat = n % 256 := by simp
    have hHigh : (UInt8.ofNat (n / 256 % 256)).toNat = n / 256 := by
      rw [UInt8.toNat_ofNat']
      omega
    rw [hLow, hHigh]
    omega

private theorem isRecord_iff {r : LabelRecord} :
    IsRecord r bytes ↔ r.Narrow ∧ bytes = r.toBytes := by
  simp only [IsRecord, isShort_iff, Text.fromUtf8?_eq_some_iff]
  constructor
  · rintro ⟨address, length, name, rfl, ⟨-, rfl⟩, ⟨hLength, rfl⟩, rfl⟩
    exact ⟨hLength, by simp only [LabelRecord.toBytes, List.append_assoc]⟩
  · rintro ⟨hNarrow, rfl⟩
    have hAddress : r.address.toNat ≤ 65535 := Nat.le_of_lt_succ r.address.toNat_lt
    exact ⟨_, _, _, by simp only [LabelRecord.toBytes, List.append_assoc], ⟨hAddress, rfl⟩,
      ⟨hNarrow, rfl⟩, rfl⟩

private theorem areRecords_iff :
    AreRecords records bytes ↔
      (∀ r ∈ records, r.Narrow) ∧ bytes = records.flatMap LabelRecord.toBytes := by
  constructor
  · intro hRecords
    induction hRecords with
    | nil => simp
    | cons hFirst hRest ih =>
        rcases isRecord_iff.1 hFirst with ⟨hNarrow, rfl⟩
        rcases ih with ⟨hAll, rfl⟩
        exact ⟨by simpa [hNarrow] using hAll, rfl⟩
  · rintro ⟨hAll, rfl⟩
    induction records with
    | nil => exact .nil
    | cons r records ih =>
        exact .cons (isRecord_iff.2 ⟨hAll r (by simp), rfl⟩) (ih fun s hs => hAll s (by simp [hs]))

theorem isImageChunk_iff :
    IsImageChunk image bytes ↔ image.length ≤ 3584 ∧ bytes = (Chunk.image image).toBytes := by
  simp only [IsImageChunk, isShort_iff]
  constructor
  · rintro ⟨length, rfl, ⟨-, rfl⟩, hFits⟩
    exact ⟨hFits, rfl⟩
  · rintro ⟨hFits, rfl⟩
    exact ⟨_, rfl, ⟨by omega, rfl⟩, hFits⟩

theorem isLabelChunk_iff :
    IsLabelChunk records bytes ↔
      (Chunk.labels records).Narrow ∧ bytes = (Chunk.labels records).toBytes := by
  simp only [IsLabelChunk, isShort_iff, areRecords_iff]
  constructor
  · rintro ⟨count, labels, rfl, ⟨hCount, rfl⟩, hAll, rfl⟩
    exact ⟨⟨hCount, hAll⟩, rfl⟩
  · rintro ⟨⟨hCount, hAll⟩, rfl⟩
    exact ⟨_, _, rfl, ⟨hCount, rfl⟩, hAll, rfl⟩

private theorem isBinaryFile_none_iff :
    IsBinaryFile header image none bytes ↔
      image.length ≤ 3584 ∧ bytes = header ++ (Chunk.image image).toBytes := by
  constructor
  · rintro ⟨hImage⟩
    rcases isImageChunk_iff.1 hImage with ⟨hFits, rfl⟩
    exact ⟨hFits, rfl⟩
  · rintro ⟨hFits, rfl⟩
    exact .plain (isImageChunk_iff.2 ⟨hFits, rfl⟩)

private theorem isBinaryFile_some_iff :
    IsBinaryFile header image (some records) bytes ↔
      image.length ≤ 3584 ∧ (Chunk.labels records).Narrow ∧
        (bytes = header ++ ((Chunk.image image).toBytes ++ (Chunk.labels records).toBytes) ∨
          bytes = header ++ ((Chunk.labels records).toBytes ++ (Chunk.image image).toBytes)) := by
  constructor
  · intro hFile
    cases hFile with
    | labelled hImage hLabels =>
        rcases isImageChunk_iff.1 hImage with ⟨hFits, rfl⟩
        rcases isLabelChunk_iff.1 hLabels with ⟨hNarrow, rfl⟩
        exact ⟨hFits, hNarrow, .inl rfl⟩
    | labelledInFront hImage hLabels =>
        rcases isImageChunk_iff.1 hImage with ⟨hFits, rfl⟩
        rcases isLabelChunk_iff.1 hLabels with ⟨hNarrow, rfl⟩
        exact ⟨hFits, hNarrow, .inr rfl⟩
  · rintro ⟨hFits, hNarrow, rfl | rfl⟩
    · exact .labelled (isImageChunk_iff.2 ⟨hFits, rfl⟩) (isLabelChunk_iff.2 ⟨hNarrow, rfl⟩)
    · exact .labelledInFront (isImageChunk_iff.2 ⟨hFits, rfl⟩) (isLabelChunk_iff.2 ⟨hNarrow, rfl⟩)

/-- An image takes three bytes at least. -/
theorem length_le_of_isBinaryFile {labels : Option (List LabelRecord)}
    (hFile : IsBinaryFile header image labels bytes) : header.length + 3 ≤ bytes.length := by
  have hImage {chunk : List UInt8} (hChunk : IsImageChunk image chunk) : 3 ≤ chunk.length := by
    rcases hChunk with ⟨_, rfl, ⟨low, high, rfl, -⟩, -⟩
    simp
  cases hFile with
  | plain hChunk =>
      have hLength := hImage hChunk
      rw [List.length_append]
      omega
  | labelled hChunk hLabels =>
      have hLength := hImage hChunk
      rw [List.length_append, List.length_append]
      omega
  | labelledInFront hChunk hLabels =>
      have hLength := hImage hChunk
      rw [List.length_append, List.length_append]
      omega

/-- Chunks at the front of a file are the first that are read. -/
theorem readChunks?_flatMap_append {chunks : List Chunk} (hNarrow : ∀ c ∈ chunks, c.Narrow)
    (rest : List UInt8) :
    readChunks? (chunks.flatMap Chunk.toBytes ++ rest) =
      (readChunks? rest).map (chunks ++ ·) := by
  induction chunks with
  | nil => simp
  | cons c chunks ih =>
      rw [List.flatMap_cons, List.append_assoc, readChunks?_append (hNarrow c (by simp)),
        ih fun d hd => hNarrow d (by simp [hd]), Option.map_map]
      rfl

/-! ## What is read -/

namespace ObjectFile

variable {o : ObjectFile} {chunks : List Chunk}

/-- Chunks without an image and without labels are none. -/
theorem eq_nil_of_filterMap (hImages : chunks.filterMap Chunk.image? = [])
    (hLabels : chunks.filterMap Chunk.labels? = []) : chunks = [] := by
  cases chunks with
  | nil => rfl
  | cons c chunks =>
      cases c with
      | image bytes => simp [Chunk.image?] at hImages
      | labels records => simp [Chunk.labels?] at hLabels

/-- One image and no labels are one chunk. -/
theorem eq_image_of_filterMap (hImages : chunks.filterMap Chunk.image? = [image])
    (hLabels : chunks.filterMap Chunk.labels? = []) : chunks = [.image image] := by
  cases chunks with
  | nil => simp at hImages
  | cons c chunks =>
      cases c with
      | image bytes =>
          obtain ⟨rfl, hRest⟩ := List.cons.inj hImages
          rw [eq_nil_of_filterMap hRest hLabels]
      | labels records => simp [Chunk.labels?] at hLabels

/-- Labels once and no image are one chunk. -/
theorem eq_labels_of_filterMap (hImages : chunks.filterMap Chunk.image? = [])
    (hLabels : chunks.filterMap Chunk.labels? = [records]) : chunks = [.labels records] := by
  cases chunks with
  | nil => simp at hLabels
  | cons c chunks =>
      cases c with
      | image bytes => simp [Chunk.image?] at hImages
      | labels records' =>
          obtain ⟨rfl, hRest⟩ := List.cons.inj hLabels
          have hNone : chunks.filterMap Chunk.image? = [] := hImages
          rw [eq_nil_of_filterMap hNone hRest]

private theorem ofChunks?_eq_some_iff :
    ofChunks? chunks = some o ↔
      chunks = [.image o.image] ∧ o.symbols = none ∨
        ∃ records, (chunks = [.image o.image, .labels records] ∨
          chunks = [.labels records, .image o.image]) ∧
          o.symbols = some (.ofRecords records) := by
  have hImage (symbols : Option SymbolTable) :
      (ofBytes? o.image).map (fun o => { o with symbols }) = some { o with symbols } := by
    have hBytes : ofBytes? o.image = some { o with symbols := none } :=
      ofBytes?_eq_some_iff.2 ⟨rfl, rfl⟩
    rw [hBytes, Option.map_some]
  constructor
  · intro hRead
    unfold ofChunks? at hRead
    split at hRead
    · rename_i block hImages hLabels
      rcases ofBytes?_eq_some_iff.1 hRead with ⟨rfl, hNone⟩
      exact .inl ⟨eq_image_of_filterMap hImages hLabels, hNone⟩
    · rename_i block records hImages hLabels
      rcases Option.map_eq_some_iff.1 hRead with ⟨o', hBytes, rfl⟩
      obtain rfl := (ofBytes?_eq_some_iff.1 hBytes).1
      refine .inr ⟨records, ?_, rfl⟩
      cases chunks with
      | nil => simp at hImages
      | cons c chunks =>
          cases c with
          | image bytes =>
              obtain ⟨rfl, hRest⟩ := List.cons.inj hImages
              rw [eq_labels_of_filterMap hRest hLabels]
              exact .inl rfl
          | labels records' =>
              obtain ⟨rfl, hRest⟩ := List.cons.inj hLabels
              have hOne : chunks.filterMap Chunk.image? = [o'.image] := hImages
              rw [eq_image_of_filterMap hOne hRest]
              exact .inr rfl
    · cases hRead
  · rintro (⟨rfl, hNone⟩ | ⟨records, rfl | rfl, hSome⟩)
    · exact ofBytes?_eq_some_iff.2 ⟨rfl, hNone⟩
    · exact (hImage _).trans (by rw [← hSome])
    · exact (hImage _).trans (by rw [← hSome])

/-- The reader gives an object file exactly if the bytes are a file with its image, and
its labels are those of the file. -/
theorem ofBinary?_eq_some_iff_isBinaryFile :
    ofBinary? bytes = some o ↔
      ∃ labels, IsBinaryFile binaryHeader o.image labels bytes ∧
        Option.Rel SymbolTable.MadeOf o.symbols labels := by
  have hFits : o.image.length ≤ 3584 := o.fits
  rw [ofBinary?_eq_some_iff]
  constructor
  · rintro ⟨chunks, hNarrow, rfl, hRead⟩
    rcases ofChunks?_eq_some_iff.1 hRead with ⟨rfl, hNone⟩ | ⟨records, hChunks, hSome⟩
    · refine ⟨none, isBinaryFile_none_iff.2 ⟨hFits, by simp⟩, ?_⟩
      rw [hNone]
      exact .none
    · have hLabels : (Chunk.labels records).Narrow :=
        hNarrow _ (by rcases hChunks with rfl | rfl <;> simp)
      refine ⟨some records, isBinaryFile_some_iff.2 ⟨hFits, hLabels, ?_⟩, ?_⟩
      · rcases hChunks with rfl | rfl <;> simp
      · rw [hSome]
        exact .some (SymbolTable.madeOf_iff.2 rfl)
  · rintro ⟨labels, hFile, hLabels⟩
    have hImage : (Chunk.image o.image).Narrow := by
      show o.image.length ≤ 65535
      omega
    cases hSymbols : o.symbols with
    | none =>
        rw [hSymbols] at hLabels
        cases hLabels
        rcases isBinaryFile_none_iff.1 hFile with ⟨-, rfl⟩
        exact ⟨[.image o.image], by simpa using hImage, by simp,
          ofChunks?_eq_some_iff.2 (.inl ⟨rfl, hSymbols⟩)⟩
    | some t =>
        rw [hSymbols] at hLabels
        rcases hLabels with hMade | -
        rcases isBinaryFile_some_iff.1 hFile with ⟨-, hNarrow, hBytes⟩
        rw [SymbolTable.madeOf_iff.1 hMade] at hSymbols
        rcases hBytes with rfl | rfl
        · exact ⟨[.image o.image, .labels _], by simp [hImage, hNarrow], by simp,
            ofChunks?_eq_some_iff.2 (.inr ⟨_, .inl rfl, hSymbols⟩)⟩
        · exact ⟨[.labels _, .image o.image], by simp [hImage, hNarrow], by simp,
            ofChunks?_eq_some_iff.2 (.inr ⟨_, .inr rfl, hSymbols⟩)⟩

/-! ## Files that break off -/

/-- Chunks that stand in front of further bytes of a file are the first chunks of the
file, and there are more of them behind. -/
theorem exists_append_of_prefix {chunks first : List Chunk} {rest : List UInt8}
    (hChunks : ∀ c ∈ chunks, c.Narrow) (hFirst : ∀ c ∈ first, c.Narrow) (hRest : rest ≠ [])
    (hBytes : first.flatMap Chunk.toBytes ++ rest = chunks.flatMap Chunk.toBytes) :
    ∃ c more, chunks = first ++ c :: more := by
  have hRead := readChunks?_eq_some_iff.2 ⟨hChunks, rfl⟩
  rw [← hBytes, readChunks?_flatMap_append hFirst] at hRead
  rcases Option.map_eq_some_iff.1 hRead with ⟨more, hMore, rfl⟩
  cases more with
  | nil => exact absurd (readChunks?_eq_some_iff.1 hMore).2 hRest
  | cons c more => exact ⟨c, more, rfl⟩

/-- The chunks of the files of an object file. -/
theorem exists_chunks_of_fileOf {file : List UInt8} (hFile : o.FileOf file)
    (hNarrow : ∀ t, o.symbols = some t → t.Narrow) :
    ∃ labels : Option (List LabelRecord), labels.isSome = o.symbols.isSome ∧
      file = binaryHeader ++ (Chunk.image o.image :: (labels.map Chunk.labels).toList).flatMap
        Chunk.toBytes ∧
      ∀ c ∈ Chunk.image o.image :: (labels.map Chunk.labels).toList, c.Narrow := by
  have hFits : o.image.length ≤ 3584 := o.fits
  have hImage : (Chunk.image o.image).Narrow := by
    show o.image.length ≤ 65535
    omega
  cases hFile with
  | plain hSymbols =>
      exact ⟨none, by rw [hSymbols]; rfl, by simp [fileBytes], by simpa using hImage⟩
  | @labelled t records hSymbols hPerm =>
      have hTable := hNarrow t hSymbols
      have hLabels : (Chunk.labels records).Narrow := by
        refine ⟨?_, fun r hr => hTable.2 r (hPerm.mem_iff.1 hr)⟩
        rw [hPerm.length_eq, SymbolTable.length_records]
        exact hTable.1
      exact ⟨some records, by rw [hSymbols]; rfl, by simp [fileBytes], by simp [hImage, hLabels]⟩

/-- A file that breaks off is read exactly if it has labels and breaks off in front of
them. Then only the labels are missing. -/
theorem ofBinary?_prefix_iff {file cut : List UInt8} {o' : ObjectFile} (hFile : o.FileOf file)
    (hNarrow : ∀ t, o.symbols = some t → t.Narrow) (hPrefix : cut <+: file) (hProper : cut ≠ file) :
    ofBinary? cut = some o' ↔
      o.symbols.isSome ∧ cut = binaryHeader ++ (Chunk.image o.image).toBytes ∧
        o' = { o with symbols := none } := by
  rcases exists_chunks_of_fileOf hFile hNarrow with ⟨labels, hSome, rfl, hChunks⟩
  rcases hPrefix with ⟨rest, hBytes⟩
  have hRest : rest ≠ [] := by
    rintro rfl
    exact hProper (by rw [← hBytes, List.append_nil])
  constructor
  · intro hRead
    rcases ofBinary?_eq_some_iff.1 hRead with ⟨first, hFirst, rfl, hObject⟩
    rw [List.append_assoc, List.append_cancel_left_eq] at hBytes
    rcases exists_append_of_prefix hChunks hFirst hRest hBytes with ⟨c, more, hAppend⟩
    -- An image is among the first chunks, and the file has a single one.
    rcases ofChunks?_eq_some_iff.1 hObject with ⟨rfl, hNone⟩ | ⟨records, rfl | rfl, -⟩
    · cases labels with
      | none => simp at hAppend
      | some records =>
          have hSame : o'.image = o.image := by simpa using (List.cons.inj hAppend).1.symm
          refine ⟨by rw [← hSome]; rfl, by simp [hSame], ?_⟩
          cases o' with
          | mk image symbols hFits =>
              obtain rfl : image = o.image := hSame
              obtain rfl : symbols = none := hNone
              rfl
    · cases labels <;> simp at hAppend
    · cases labels <;> simp at hAppend
  · rintro ⟨-, rfl, rfl⟩
    exact ofBinary?_eq_some_iff_isBinaryFile.2
      ⟨none, isBinaryFile_none_iff.2 ⟨o.fits, rfl⟩, .none⟩

/-! ## The reader -/

/-- The header has seven bytes. Bytes are accepted exactly if they are a file behind it:
one image that fits and labels at most once, in either order. The object file then has
this image, and it has a table exactly if the file has labels, with the last record for
each name. Of a file that was written of an object file whose labels are narrow, what is
left when it breaks off is accepted exactly if the object file has labels and all of
them are missing, and nothing else. -/
theorem ofBinary?_accepts_format :
    binaryHeader.length = 7 ∧
    (∀ bytes, (∃ o, ofBinary? bytes = some o) ↔
      ∃ image labels, IsBinaryFile binaryHeader image labels bytes) ∧
    (∀ bytes o, ofBinary? bytes = some o ↔
      ∃ labels, IsBinaryFile binaryHeader o.image labels bytes ∧
        Option.Rel SymbolTable.MadeOf o.symbols labels) ∧
    ∀ (o o' : ObjectFile) (file cut : List UInt8), o.FileOf file →
      (∀ t, o.symbols = some t → t.Narrow) → cut <+: file → cut ≠ file →
      (ofBinary? cut = some o' ↔
        o.symbols.isSome ∧ cut = binaryHeader ++ (Chunk.image o.image).toBytes ∧
          o' = { o with symbols := none }) := by
  refine ⟨rfl, fun bytes => ⟨?_, ?_⟩, fun bytes o => ofBinary?_eq_some_iff_isBinaryFile,
    fun o o' file cut hFile hNarrow => ofBinary?_prefix_iff hFile hNarrow⟩
  · rintro ⟨o, hRead⟩
    rcases ofBinary?_eq_some_iff_isBinaryFile.1 hRead with ⟨labels, hFile, -⟩
    exact ⟨o.image, labels, hFile⟩
  · rintro ⟨image, labels, hFile⟩
    cases labels with
    | none =>
        have hFits : image.length ≤ 3584 := (isBinaryFile_none_iff.1 hFile).1
        exact ⟨⟨image, none, hFits⟩, ofBinary?_eq_some_iff_isBinaryFile.2 ⟨none, hFile, .none⟩⟩
    | some records =>
        have hFits : image.length ≤ 3584 := (isBinaryFile_some_iff.1 hFile).1
        exact ⟨⟨image, some (.ofRecords records), hFits⟩,
          ofBinary?_eq_some_iff_isBinaryFile.2
            ⟨some records, hFile, .some (SymbolTable.madeOf_iff.2 rfl)⟩⟩

/-- Without its labels, the file of a jump is still the file of that jump. -/
theorem ofBinary?_accepts_format_jumping :
    ofBinary? (binaryHeader ++ (Chunk.image jumping.image).toBytes) =
      some { jumping with symbols := none } := by
  have hNarrow : ∀ t, jumping.symbols = some t → t.Narrow := by
    intro t hTable
    obtain rfl := Option.some.inj hTable
    exact SymbolTable.narrow_ofRecords ⟨by decide, by decide⟩
  have hFile : jumping.toBinary = binaryHeader ++ (Chunk.image jumping.image).toBytes ++
      (Chunk.labels (SymbolTable.ofRecords [⟨"loop", 0x200⟩, ⟨"end", 0x202⟩]).records).toBytes :=
    rfl
  have hProper : binaryHeader ++ (Chunk.image jumping.image).toBytes ≠ jumping.toBinary := by
    rw [hFile]
    simp [Chunk.toBytes]
  exact (ofBinary?_accepts_format.2.2.2 jumping _ _ _ (fileOf_toBinary jumping) hNarrow
    (by rw [hFile]; exact List.prefix_append ..) hProper).2 ⟨rfl, rfl, rfl⟩

/-- The file without a program and without labels. -/
def emptyFile : List UInt8 := [0x63, 0x68, 0x38, 0x21, 0x10, 0x00, 0x02, 0x00, 0x00, 0x00]

/-- Behind eight bytes of it there is no room for an image. -/
theorem not_isBinaryFile_emptyFile :
    ofBinary? emptyFile = some .empty ∧
      ∀ header image labels, header.length = 8 → ¬ IsBinaryFile header image labels emptyFile := by
  constructor
  · exact ofBinary?_eq_some_iff_isBinaryFile.2
      ⟨none, isBinaryFile_none_iff.2 ⟨by decide, rfl⟩, .none⟩
  · intro header image labels hHeader hFile
    have hShort : header.length + 3 ≤ emptyFile.length := length_le_of_isBinaryFile hFile
    rw [hHeader] at hShort
    exact absurd hShort (by decide)

end ObjectFile

end Chip8.Asm

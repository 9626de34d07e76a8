import Chip8.Proofs.Asm.Table

/-!
# Binary files and the object files they hold

What a reader takes off at the front of a file is what the writer would have put there,
with nothing left out: each reader gives a value exactly if its form stands at the front
and the value is narrow, that is, if its lengths and counts are below `2^16`. A file is
therefore cut into chunks in one way only.

An object file has one file for every order of its labels. Each of these files is read
back as that object file exactly if its labels are narrow. If they are not, the counts
and lengths that the writer cut off have moved the chunks. Such a file may still be
read, but no narrow chunk holds the labels that were written.

## Main definitions

* `LabelRecord.Narrow`, `Chunk.Narrow` — counts and lengths fit into two bytes.
* `ObjectFile.FileOf` — the files of an object file.
* `SymbolTable.Narrow` — at most `65535` labels, each with a name of at most `65535`
  bytes.

## Main results

* `readChunk?_eq_some_iff`, `readChunks?_eq_some_iff` — what is read.
* `ofBinary?_eq_some_iff` — what a file holds.
* `ofBinary?_fileOf` — which object files are read back from their files.
-/

namespace Chip8.Asm

/-! ## Numbers and blocks -/

theorem shortBytes_of_bytes (low high : UInt8) :
    shortBytes (low.toNat + 256 * high.toNat) = [low, high] := by
  have hLow : (low.toNat + 256 * high.toNat) % 256 = low.toNat := by
    have hByte := low.toNat_lt
    omega
  have hHigh : (low.toNat + 256 * high.toNat) / 256 % 256 = high.toNat := by
    have hByte := low.toNat_lt
    have hByte' := high.toNat_lt
    omega
  rw [shortBytes, hLow, hHigh, UInt8.ofNat_toNat, UInt8.ofNat_toNat]

private theorem readShort?_eq_some_iff {bytes rest : List UInt8} {n : Nat} :
    readShort? bytes = some (n, rest) ↔ n < 65536 ∧ bytes = shortBytes n ++ rest := by
  constructor
  · intro h
    unfold readShort? at h
    split at h
    · rename_i low high bytes
      obtain ⟨rfl, rfl⟩ := Prod.mk.inj (Option.some.inj h)
      have hLow := low.toNat_lt
      have hHigh := high.toNat_lt
      refine ⟨by omega, ?_⟩
      rw [shortBytes_of_bytes]
      rfl
    · simp at h
  · rintro ⟨hn, rfl⟩
    exact readShort?_append hn rest

private theorem readBlock?_eq_some_iff {bytes block rest : List UInt8} {n : Nat} :
    readBlock? n bytes = some (block, rest) ↔ block.length = n ∧ bytes = block ++ rest := by
  constructor
  · intro h
    exact ⟨(append_of_readBlock? h).2, (append_of_readBlock? h).1⟩
  · rintro ⟨rfl, rfl⟩
    exact readBlock?_append block rest

/-! ## Records -/

/-- The length of the name fits into two bytes. -/
def LabelRecord.Narrow (r : LabelRecord) : Prop := (Text.toUtf8 r.name).length ≤ 65535

instance : DecidablePred LabelRecord.Narrow := fun _ => inferInstanceAs (Decidable (_ ≤ _))

private theorem LabelRecord.toBytes_append (r : LabelRecord) (rest : List UInt8) :
    r.toBytes ++ rest = shortBytes r.address.toNat ++
      (shortBytes (Text.toUtf8 r.name).length ++ (Text.toUtf8 r.name ++ rest)) := by
  simp only [toBytes, List.append_assoc]

/-- A record is read exactly if it is narrow and its form stands at the front. -/
theorem readRecord?_eq_some_iff {bytes rest : List UInt8} {r : LabelRecord} :
    readRecord? bytes = some (r, rest) ↔ r.Narrow ∧ bytes = r.toBytes ++ rest := by
  simp only [readRecord?, Option.bind_eq_bind, Option.bind_eq_some_iff, Prod.exists,
    Option.pure_def, Option.some.injEq, Prod.mk.injEq, readShort?_eq_some_iff,
    readBlock?_eq_some_iff, Text.fromUtf8?_eq_some_iff]
  constructor
  · rintro ⟨a, _, ⟨ha, rfl⟩, n, _, ⟨hn, rfl⟩, _, _, ⟨rfl, rfl⟩, name, rfl, rfl, rfl⟩
    have hAddress : (UInt16.ofNat a).toNat = a := by
      rw [UInt16.toNat_ofNat']
      omega
    refine ⟨show (Text.toUtf8 name).length ≤ 65535 by omega, ?_⟩
    rw [LabelRecord.toBytes_append, hAddress]
  · rintro ⟨hr, rfl⟩
    have hName : (Text.toUtf8 r.name).length ≤ 65535 := hr
    refine ⟨_, _, ⟨r.address.toNat_lt, r.toBytes_append rest⟩, _, _, ⟨by omega, rfl⟩, _, rest,
      ⟨rfl, rfl⟩, r.name, rfl, ?_, rfl⟩
    rw [UInt16.ofNat_toNat]

private theorem readRecords?_eq_some_iff {count : Nat} {bytes rest : List UInt8}
    {records : List LabelRecord} :
    readRecords? count bytes = some (records, rest) ↔
      records.length = count ∧ (∀ r ∈ records, r.Narrow) ∧
        bytes = records.flatMap LabelRecord.toBytes ++ rest := by
  induction count generalizing bytes rest records with
  | zero =>
      rw [List.length_eq_zero_iff]
      constructor
      · intro h
        obtain ⟨rfl, rfl⟩ := Prod.mk.inj (Option.some.inj h)
        simp
      · rintro ⟨rfl, -, rfl⟩
        rfl
  | succ count ih =>
      simp only [readRecords?, Option.bind_eq_bind, Option.bind_eq_some_iff, Prod.exists,
        Option.pure_def, Option.some.injEq, Prod.mk.injEq, readRecord?_eq_some_iff, ih]
      constructor
      · rintro ⟨r, _, ⟨hr, rfl⟩, records, _, ⟨rfl, hRecords, rfl⟩, rfl, rfl⟩
        exact ⟨rfl, by simpa [hr] using hRecords, by simp⟩
      · rintro ⟨hLength, hNarrow, rfl⟩
        cases records with
        | nil => simp at hLength
        | cons r records =>
            have hCount : records.length = count := by simpa using hLength
            refine ⟨r, _, ⟨hNarrow r (by simp), ?_⟩, records, rest,
              ⟨hCount, fun s hs => hNarrow s (by simp [hs]), rfl⟩, rfl, rfl⟩
            rw [List.flatMap_cons, List.append_assoc]

/-! ## Chunks -/

/-- The length of the image, or the number of labels and the lengths of their names, fit
into two bytes. -/
def Chunk.Narrow : Chunk → Prop
  | .image bytes => bytes.length ≤ 65535
  | .labels records => records.length ≤ 65535 ∧ ∀ r ∈ records, r.Narrow

/-- A chunk is read exactly if it is narrow and its form stands at the front. -/
theorem readChunk?_eq_some_iff {bytes rest : List UInt8} {c : Chunk} :
    readChunk? bytes = some (c, rest) ↔ c.Narrow ∧ bytes = c.toBytes ++ rest := by
  constructor
  · intro h
    cases bytes with
    | nil => simp [readChunk?] at h
    | cons kind bytes =>
        rw [readChunk?] at h
        split at h
        · rename_i hkind
          simp only [Option.bind_eq_bind, Option.bind_eq_some_iff, Prod.exists, Option.pure_def,
            Option.some.injEq, Prod.mk.injEq, readShort?_eq_some_iff,
            readBlock?_eq_some_iff] at h
          obtain ⟨n, _, ⟨hn, rfl⟩, block, _, ⟨rfl, rfl⟩, rfl, rfl⟩ := h
          exact ⟨show block.length ≤ 65535 by omega, by simp [Chunk.toBytes, hkind]⟩
        · split at h
          · rename_i hkind
            simp only [Option.bind_eq_bind, Option.bind_eq_some_iff, Prod.exists,
              Option.pure_def, Option.some.injEq, Prod.mk.injEq, readShort?_eq_some_iff,
              readRecords?_eq_some_iff] at h
            obtain ⟨n, _, ⟨hn, rfl⟩, records, _, ⟨rfl, hRecords, rfl⟩, rfl, rfl⟩ := h
            exact ⟨show records.length ≤ 65535 ∧ _ from ⟨by omega, hRecords⟩,
              by simp [Chunk.toBytes, hkind]⟩
          · simp at h
  · rintro ⟨hc, rfl⟩
    cases c with
    | image bytes =>
        have hLength : bytes.length ≤ 65535 := hc
        have hShort := readShort?_append (n := bytes.length) (by omega) (bytes ++ rest)
        simp [Chunk.toBytes, readChunk?, hShort, readBlock?_append]
    | labels records =>
        have hLength : records.length ≤ 65535 := hc.1
        have hShort := readShort?_append (n := records.length) (by omega)
          (records.flatMap LabelRecord.toBytes ++ rest)
        have hRecords : readRecords? records.length
            (records.flatMap LabelRecord.toBytes ++ rest) = some (records, rest) :=
          readRecords?_eq_some_iff.2 ⟨rfl, hc.2, rfl⟩
        simp [Chunk.toBytes, readChunk?, hShort, hRecords]

/-- Behind a chunk that was read, chunks are read to the end. -/
theorem readChunks?_of_readChunk? {bytes rest : List UInt8} {c : Chunk}
    (h : readChunk? bytes = some (c, rest)) :
    readChunks? bytes = (readChunks? rest).map (c :: ·) := by
  cases bytes with
  | nil => simp [readChunk?] at h
  | cons b bs =>
      rw [readChunks?]
      split
      · rename_i hnone
        rw [h] at hnone
        cases hnone
      · rename_i hSome
        rw [h] at hSome
        obtain ⟨rfl, rfl⟩ := Prod.mk.inj (Option.some.inj hSome)
        rfl

/-- A narrow chunk at the front is read, whatever follows it. -/
theorem readChunks?_append {c : Chunk} (hc : c.Narrow) (rest : List UInt8) :
    readChunks? (c.toBytes ++ rest) = (readChunks? rest).map (c :: ·) :=
  readChunks?_of_readChunk? (readChunk?_eq_some_iff.2 ⟨hc, rfl⟩)

/-- Bytes are read as chunks exactly if they are the forms of narrow chunks. -/
theorem readChunks?_eq_some_iff {bytes : List UInt8} {chunks : List Chunk} :
    readChunks? bytes = some chunks ↔
      (∀ c ∈ chunks, c.Narrow) ∧ bytes = chunks.flatMap Chunk.toBytes := by
  constructor
  · intro h
    fun_induction readChunks? bytes generalizing chunks with
    | case1 =>
        obtain rfl := Option.some.inj h
        simp
    | case2 b bs hStep => cases h
    | case3 b bs c rest hStep ih =>
        obtain ⟨cs, hcs, rfl⟩ := Option.map_eq_some_iff.1 h
        obtain ⟨hc, hBytes⟩ := readChunk?_eq_some_iff.1 hStep
        obtain ⟨hNarrow, rfl⟩ := ih hcs
        exact ⟨by simpa [hc] using hNarrow, by simpa using hBytes⟩
  · rintro ⟨hNarrow, rfl⟩
    induction chunks with
    | nil => simp [readChunks?]
    | cons c cs ih =>
        rw [List.flatMap_cons, readChunks?_append (hNarrow c (by simp)),
          ih fun d hd => hNarrow d (by simp [hd])]
        rfl

/-! ## What a file holds -/

/-- There are at most `65535` labels, and each name has at most `65535` bytes. -/
def SymbolTable.Narrow (t : SymbolTable) : Prop := t.size ≤ 65535 ∧ ∀ r ∈ t.records, r.Narrow

/-- A narrow chunk holds the labels of a narrow table. -/
theorem SymbolTable.narrow_ofRecords {records : List LabelRecord}
    (h : (Chunk.labels records).Narrow) : (ofRecords records).Narrow := by
  have hCount : records.length ≤ 65535 := h.1
  refine ⟨?_, fun r hr => ?_⟩
  · have hSize := size_withRecords_le empty records
    have hEmpty : empty.size = 0 := by simp [← length_records]
    rw [ofRecords_eq]
    omega
  · rcases mem_records_withRecords hr with hEmpty | ⟨s, hs, rfl⟩
    · simp at hEmpty
    · have hName : (Text.toUtf8 s.name).length ≤ 65535 := h.2 s hs
      show (Text.toUtf8 (Text.foldCase s.name)).length ≤ 65535
      rwa [length_toUtf8_foldCase]

namespace ObjectFile

theorem ofBinary?_eq_some_iff {bytes : List UInt8} {o : ObjectFile} :
    ofBinary? bytes = some o ↔
      ∃ chunks : List Chunk, (∀ c ∈ chunks, c.Narrow) ∧
        bytes = binaryHeader ++ chunks.flatMap Chunk.toBytes ∧ ofChunks? chunks = some o := by
  simp only [ofBinary?, Option.bind_eq_bind, Option.bind_eq_some_iff,
    Text.after?_eq_some_iff, readChunks?_eq_some_iff]
  constructor
  · rintro ⟨_, rfl, chunks, ⟨hNarrow, rfl⟩, ho⟩
    exact ⟨chunks, hNarrow, rfl, ho⟩
  · rintro ⟨chunks, hNarrow, rfl, ho⟩
    exact ⟨_, rfl, chunks, ⟨hNarrow, rfl⟩, ho⟩

/-- The table of chunks is the one of their labels. -/
theorem symbols_of_ofChunks? {chunks : List Chunk} {o : ObjectFile}
    (h : ofChunks? chunks = some o) :
    o.symbols = (chunks.filterMap Chunk.labels?).head?.map .ofRecords := by
  unfold ofChunks? at h
  split at h
  · rename_i hImage hLabels
    rw [hLabels, (ofBytes?_eq_some_iff.1 h).2]
    rfl
  · rename_i hImage hLabels
    obtain ⟨o', -, rfl⟩ := Option.map_eq_some_iff.1 h
    rw [hLabels]
    rfl
  · cases h

/-- Whatever file an object file is read from, the labels that it has are narrow. -/
theorem narrow_of_ofBinary? {bytes : List UInt8} {o : ObjectFile}
    (h : ofBinary? bytes = some o) {t : SymbolTable} (ht : o.symbols = some t) : t.Narrow := by
  obtain ⟨chunks, hNarrow, -, ho⟩ := ofBinary?_eq_some_iff.1 h
  rw [symbols_of_ofChunks? ho] at ht
  obtain ⟨records, hHead, rfl⟩ := Option.map_eq_some_iff.1 ht
  obtain ⟨c, hc, hLabels⟩ := List.mem_filterMap.1 (List.mem_of_head? hHead)
  cases c with
  | image bytes => cases hLabels
  | labels records' =>
      obtain rfl := Option.some.inj hLabels
      exact SymbolTable.narrow_ofRecords (hNarrow _ hc)

/-! ## The files of an object file -/

/-- A file of an object file: its labels, if it has a table, stand in any order. -/
inductive FileOf (o : ObjectFile) : List UInt8 → Prop where
  | plain (hSymbols : o.symbols = none) : FileOf o (fileBytes o.image none)
  | labelled {t : SymbolTable} {records : List LabelRecord} (hSymbols : o.symbols = some t)
      (hPerm : records.Perm t.records) : FileOf o (fileBytes o.image (some records))

/-- The writer gives one of the files. -/
theorem fileOf_toBinary (o : ObjectFile) : o.FileOf o.toBinary := by
  unfold toBinary
  cases hSymbols : o.symbols with
  | none => exact .plain hSymbols
  | some t => exact .labelled hSymbols (.refl _)

/-- The image is read, whatever stands behind it. -/
theorem ofBinary?_fileBytes (o : ObjectFile) (labels : Option (List LabelRecord)) :
    ofBinary? (fileBytes o.image labels) =
      (readChunks? ((labels.map fun records => (Chunk.labels records).toBytes).getD [])).bind
        fun chunks => ofChunks? (.image o.image :: chunks) := by
  have hImage : (Chunk.image o.image).Narrow := by
    have hFits : o.image.length ≤ 3584 := o.fits
    show o.image.length ≤ 65535
    omega
  have hHeader : ∀ rest, Text.after? binaryHeader (binaryHeader ++ rest) = some rest :=
    fun rest => Text.after?_eq_some_iff.2 rfl
  rw [ofBinary?, fileBytes, List.append_assoc, hHeader, Option.bind_eq_bind,
    Option.bind_some, readChunks?_append hImage, Option.bind_eq_bind, Option.bind_map]
  rfl

/-- A table that is narrow is read back, whatever the order of its records. -/
theorem ofBinary?_labelled {o : ObjectFile} {t : SymbolTable} {records : List LabelRecord}
    (hSymbols : o.symbols = some t) (hPerm : records.Perm t.records) (ht : t.Narrow) :
    ofBinary? (fileBytes o.image (some records)) = some o := by
  have hLabels : (Chunk.labels records).Narrow := by
    refine ⟨?_, fun r hr => ht.2 r (hPerm.mem_iff.1 hr)⟩
    rw [hPerm.length_eq, SymbolTable.length_records]
    exact ht.1
  have hChunks : readChunks? (Chunk.labels records).toBytes = some [.labels records] :=
    readChunks?_eq_some_iff.2 ⟨by simpa using hLabels, by simp⟩
  rw [ofBinary?_fileBytes]
  show (readChunks? (Chunk.labels records).toBytes).bind _ = some o
  rw [hChunks, Option.bind_some]
  show (ofBytes? o.image).map (fun o => { o with symbols := some (.ofRecords records) }) = some o
  have hImage : ofBytes? o.image = some ⟨o.image, none, o.fits⟩ :=
    ofBytes?_eq_some_iff.2 ⟨rfl, rfl⟩
  rw [hImage, SymbolTable.ofRecords_of_perm hPerm, ← hSymbols, Option.map_some]

/-- Behind the image, labels are read only where labels were written, whether or not
they are read back. -/
theorem isSome_labels_of_readChunks? {labels : Option (List LabelRecord)} {chunks : List Chunk}
    (h : readChunks? ((labels.map fun records => (Chunk.labels records).toBytes).getD []) =
      some chunks) : (chunks.filterMap Chunk.labels?).head?.isSome = labels.isSome := by
  have hBytes := (readChunks?_eq_some_iff.1 h).2
  cases labels with
  | none =>
      rcases chunks with _ | ⟨c, chunks⟩
      · rfl
      · cases c <;> simp [Chunk.toBytes] at hBytes
  | some records =>
      -- the first byte tells the kind of the first chunk, even if its count was cut off
      rcases chunks with _ | ⟨c, chunks⟩
      · simp [Chunk.toBytes] at hBytes
      · cases c with
        | image bytes => simp [Chunk.toBytes] at hBytes
        | labels records' => rfl

/-- A file of an object file is read back exactly if the labels, when there is a table,
are at most `65535`, with names of at most `65535` bytes. Whatever is read from the
file, it has a table exactly if the object file has one. -/
theorem ofBinary?_fileOf {o : ObjectFile} {bytes : List UInt8} (hFile : o.FileOf bytes) :
    (ofBinary? bytes = some o ↔ ∀ t, o.symbols = some t → t.Narrow) ∧
      ∀ o', ofBinary? bytes = some o' → o'.symbols.isSome = o.symbols.isSome := by
  refine ⟨⟨fun h t ht => narrow_of_ofBinary? h ht, fun hNarrow => ?_⟩, fun o' h => ?_⟩
  · cases hFile with
    | plain hSymbols =>
        rw [ofBinary?_fileBytes]
        show (readChunks? []).bind _ = some o
        rw [readChunks?, Option.bind_some]
        exact ofBytes?_eq_some_iff.2 ⟨rfl, hSymbols⟩
    | labelled hSymbols hPerm => exact ofBinary?_labelled hSymbols hPerm (hNarrow _ hSymbols)
  · have hRead : ∀ labels : Option (List LabelRecord),
        ofBinary? (fileBytes o.image labels) = some o' → o'.symbols.isSome = labels.isSome := by
      intro labels hLabels
      rw [ofBinary?_fileBytes] at hLabels
      obtain ⟨chunks, hChunks, ho'⟩ := Option.bind_eq_some_iff.1 hLabels
      rw [symbols_of_ofChunks? ho', Option.isSome_map]
      show (chunks.filterMap Chunk.labels?).head?.isSome = labels.isSome
      exact isSome_labels_of_readChunks? hChunks
    cases hFile with
    | plain hSymbols =>
        rw [hRead none h, hSymbols]
        rfl
    | labelled hSymbols hPerm =>
        rw [hRead _ h, hSymbols]
        rfl

/-- A program of one jump, with the two labels `loop` and `end`. -/
def jumping : ObjectFile where
  image := [0x12, 0x00]
  symbols := some (.ofRecords [⟨"loop", 0x200⟩, ⟨"end", 0x202⟩])
  fits := by decide

theorem ofBinary?_fileOf_jumping : jumping.FileOf jumping.toBinary ∧
    ofBinary? jumping.toBinary = some jumping := by
  have hNarrow : (Chunk.labels [⟨"loop", 0x200⟩, ⟨"end", 0x202⟩]).Narrow :=
    ⟨by decide, by decide⟩
  refine ⟨fileOf_toBinary jumping, (ofBinary?_fileOf (fileOf_toBinary jumping)).1.2 ?_⟩
  intro t ht
  obtain rfl := Option.some.inj ht
  exact SymbolTable.narrow_ofRecords hNarrow

end ObjectFile

end Chip8.Asm

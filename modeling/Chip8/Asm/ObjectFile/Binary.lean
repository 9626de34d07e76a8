import Chip8.Asm.ObjectFile

/-!
# The binary form of object files

A file is a header followed by chunks. A chunk begins with a byte that tells its kind:

* `00` — an image: its length, then its bytes;
* `01` — labels: their number, then for each its address, the length of its name, and
  the name in UTF-8.

Numbers take two bytes, the low byte first. A file has exactly one image, at most one
chunk of labels, in either order, and nothing else. Lengths and counts are written
modulo `2^16`, so that a table with more labels, or a longer name, is not read back.

The order of the records of a chunk of labels has no meaning, except that of two records
for one label the last counts. The writer puts them in the order of a listing.

## Main definitions

* `Chunk`, `Chunk.toBytes`, `readChunk?` — one chunk.
* `fileBytes` — a file of an image and labels, with the labels in a given order.
* `toBinary`, `ofBinary?` — writing and reading files.
-/

namespace Chip8.Asm

/-! ## Numbers and blocks -/

/-- A number modulo `2^16` as two bytes, the low byte first. -/
def shortBytes (n : Nat) : List UInt8 := [UInt8.ofNat (n % 256), UInt8.ofNat (n / 256 % 256)]

/-- Reads a number of two bytes, and gives what is left. -/
def readShort? : List UInt8 → Option (Nat × List UInt8)
  | low :: high :: rest => some (low.toNat + 256 * high.toNat, rest)
  | _ => none

/-- Reads `n` bytes, and gives what is left. -/
def readBlock? (n : Nat) (bytes : List UInt8) : Option (List UInt8 × List UInt8) :=
  let block := bytes.take n
  if block.length = n then some (block, bytes.drop n) else none

theorem readShort?_append {n : Nat} (hSmall : n < 65536) (rest : List UInt8) :
    readShort? (shortBytes n ++ rest) = some (n, rest) := by
  have hLow : (UInt8.ofNat (n % 256)).toNat = n % 256 := by simp
  have hHigh : (UInt8.ofNat (n / 256 % 256)).toNat = n / 256 := by
    rw [UInt8.toNat_ofNat']
    omega
  simp only [shortBytes, List.cons_append, List.nil_append, readShort?, hLow, hHigh,
    Option.some.injEq, Prod.mk.injEq, and_true]
  omega

theorem readBlock?_append (bytes rest : List UInt8) :
    readBlock? bytes.length (bytes ++ rest) = some (bytes, rest) := by
  simp [readBlock?]

private theorem length_of_readShort? {bytes rest : List UInt8} {n : Nat}
    (h : readShort? bytes = some (n, rest)) : bytes.length = rest.length + 2 := by
  unfold readShort? at h
  split at h
  · simp only [Option.some.injEq, Prod.mk.injEq] at h
    obtain ⟨-, rfl⟩ := h
    rfl
  · simp at h

theorem append_of_readBlock? {n : Nat} {bytes block rest : List UInt8}
    (h : readBlock? n bytes = some (block, rest)) : bytes = block ++ rest ∧ block.length = n := by
  simp only [readBlock?] at h
  split at h
  · rename_i whole
    simp only [Option.some.injEq, Prod.mk.injEq] at h
    obtain ⟨rfl, rfl⟩ := h
    exact ⟨(List.take_append_drop n bytes).symm, whole⟩
  · simp at h

/-! ## Chunks -/

/-- A label with its address, as a file has it. -/
structure LabelRecord where
  name : String
  address : UInt16
  deriving DecidableEq, Repr

/-- The bytes of a label. -/
def LabelRecord.toBytes (r : LabelRecord) : List UInt8 :=
  let name := Text.toUtf8 r.name
  shortBytes r.address.toNat ++ shortBytes name.length ++ name

/-- Reads a label, and gives what is left. -/
def readRecord? (bytes : List UInt8) : Option (LabelRecord × List UInt8) := do
  let (address, bytes) ← readShort? bytes
  let (length, bytes) ← readShort? bytes
  let (block, bytes) ← readBlock? length bytes
  let name ← Text.fromUtf8? block
  return (⟨name, UInt16.ofNat address⟩, bytes)

/-- Reads a number of labels, and gives what is left. -/
def readRecords? : Nat → List UInt8 → Option (List LabelRecord × List UInt8)
  | 0, bytes => some ([], bytes)
  | count + 1, bytes => do
    let (record, bytes) ← readRecord? bytes
    let (records, bytes) ← readRecords? count bytes
    return (record :: records, bytes)

/-- A part of a file. -/
inductive Chunk where
  | image (bytes : List UInt8)
  | labels (records : List LabelRecord)
  deriving DecidableEq, Repr

namespace Chunk

/-- The bytes of a chunk. -/
def toBytes : Chunk → List UInt8
  | image bytes => 0x00 :: shortBytes bytes.length ++ bytes
  | labels records => 0x01 :: shortBytes records.length ++ records.flatMap LabelRecord.toBytes

/-- The image that a chunk is, if it is one. -/
def image? : Chunk → Option (List UInt8)
  | image bytes => some bytes
  | labels _ => none

/-- The labels that a chunk holds, if it holds labels. -/
def labels? : Chunk → Option (List LabelRecord)
  | labels records => some records
  | image _ => none

end Chunk

/-- Reads a chunk, and gives what is left. -/
def readChunk? : List UInt8 → Option (Chunk × List UInt8)
  | [] => none
  | kind :: bytes =>
    if kind = 0x00 then do
      let (length, bytes) ← readShort? bytes
      let (block, bytes) ← readBlock? length bytes
      return (.image block, bytes)
    else if kind = 0x01 then do
      let (count, bytes) ← readShort? bytes
      let (records, bytes) ← readRecords? count bytes
      return (.labels records, bytes)
    else none

private theorem length_readRecords?_le {count : Nat} {bytes rest : List UInt8}
    {records : List LabelRecord} (h : readRecords? count bytes = some (records, rest)) :
    rest.length ≤ bytes.length := by
  induction count generalizing bytes rest records with
  | zero => simp_all [readRecords?]
  | succ count ih =>
    simp only [readRecords?, readRecord?, Option.bind_eq_bind, Option.bind_eq_some_iff,
      Prod.exists, Option.pure_def, Option.some.injEq, Prod.mk.injEq] at h
    obtain ⟨r, b, ⟨a, b₁, hb₁, l, b₂, hb₂, k, b₃, hb₃, name, -, -, rfl⟩, rs, b', hMore, -, rfl⟩ := h
    have h₁ := length_of_readShort? hb₁
    have h₂ := length_of_readShort? hb₂
    have h₃ := congrArg List.length (append_of_readBlock? hb₃).1
    have h₄ := ih hMore
    simp only [List.length_append] at h₃
    omega

/-- What is left behind a chunk is shorter than what it was read from. -/
theorem length_readChunk?_lt {bytes rest : List UInt8} {c : Chunk}
    (h : readChunk? bytes = some (c, rest)) : rest.length < bytes.length := by
  cases bytes with
  | nil => simp [readChunk?] at h
  | cons kind bytes =>
    simp only [readChunk?] at h
    split at h
    · simp only [Option.bind_eq_bind, Option.bind_eq_some_iff, Prod.exists, Option.pure_def,
        Option.some.injEq, Prod.mk.injEq] at h
      obtain ⟨l, b, hShort, k, b', hBlock, -, rfl⟩ := h
      have h₁ := length_of_readShort? hShort
      have h₂ := congrArg List.length (append_of_readBlock? hBlock).1
      simp only [List.length_append, List.length_cons] at *
      omega
    · split at h
      · simp only [Option.bind_eq_bind, Option.bind_eq_some_iff, Prod.exists, Option.pure_def,
          Option.some.injEq, Prod.mk.injEq] at h
        obtain ⟨n, b, hShort, rs, b', hRecords, -, rfl⟩ := h
        have h₁ := length_of_readShort? hShort
        have h₂ := length_readRecords?_le hRecords
        simp only [List.length_cons]
        omega
      · simp at h

/-- Reads chunks to the end. -/
def readChunks? (bytes : List UInt8) : Option (List Chunk) :=
  match bytes with
  | [] => some []
  | b :: bs =>
    match _step : readChunk? (b :: bs) with
    | none => none
    | some (chunk, rest) => (readChunks? rest).map (chunk :: ·)
termination_by bytes.length
decreasing_by exact length_readChunk?_lt _step

/-! ## Files -/

/-- What every file begins with: a mark of five bytes and the version. -/
def binaryHeader : List UInt8 := [0x63, 0x68, 0x38, 0x21, 0x10, 0x00, 0x02]

/-- The labels of records, of which the last for a name counts. -/
def SymbolTable.ofRecords (records : List LabelRecord) : SymbolTable :=
  records.foldl (fun t r => t.insert r.name r.address) .empty

/-- The labels of a table as records, in the order of a listing. -/
def SymbolTable.records (t : SymbolTable) : List LabelRecord :=
  t.byAddress.map fun p => ⟨p.1.text, p.2⟩

/-- A file with the given image and, if any, the given labels. -/
def fileBytes (image : List UInt8) (labels : Option (List LabelRecord)) : List UInt8 :=
  binaryHeader ++ (Chunk.image image).toBytes
    ++ (labels.map fun records => (Chunk.labels records).toBytes).getD []

namespace ObjectFile

/-- The file of an object file. -/
def toBinary (o : ObjectFile) : List UInt8 :=
  fileBytes o.image (o.symbols.map SymbolTable.records)

/-- The object file that chunks make up: one image, and labels at most once. -/
def ofChunks? (chunks : List Chunk) : Option ObjectFile :=
  match chunks.filterMap Chunk.image?, chunks.filterMap Chunk.labels? with
  | [image], [] => ofBytes? image
  | [image], [records] =>
    (ofBytes? image).map fun o => { o with symbols := some (.ofRecords records) }
  | _, _ => none

/-- The object file of a file. -/
def ofBinary? (bytes : List UInt8) : Option ObjectFile := do
  let bytes ← Text.after? binaryHeader bytes
  let chunks ← readChunks? bytes
  ofChunks? chunks

end ObjectFile

end Chip8.Asm

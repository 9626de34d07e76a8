import Chip8.Asm.ObjectFile.Textual
import Chip8.Machine.State
import Chip8.Proofs.Asm.Assembling
import Chip8.Proofs.Asm.BinaryFile

/-!
# Loading object files

An object file is made from bytes, from statements, from a source text, or from a file
of one of the two forms. Each of these origins has an image whatever its size, and each
has its own way to refuse one that is too large:

* bytes are counted, also those of the image that a file holds;
* statements are checked where they say that they lie, and this is not enough, because
  statements that were put together by hand may all lie at one address. The encoder
  counts what it has written as well.

All of these checks come to the same: exactly the images that fit become object files.
What was let through then fits again wherever the machine copies it, which it does
without any check of its own.

## Main definitions

* `Memory.Holds` — an image lies in memory, and there is nothing else.
* `Origin`, `Origin.objectFile?` — the ways to an object file.
* `Origin.HasImage` — the image that an origin has, in terms of its parts.

## Main results

* `encodeAll_eq_ok_iff`, `ofStatements_image_iff`, `ofBinary?_image_iff`,
  `ofTextual?_image_iff` — the checks of the single ways.
* `Origin.exists_objectFile?_iff` — one condition for all of them.
* `Origin.objectFile?_fits_and_loads` — object files fit, and the machine holds what it
  has loaded.
-/

namespace Chip8

/-! ## Programs in memory -/

/-- Memory holds an image from the start of the memory for programs on, and zeros
elsewhere. -/
structure Memory.Holds (memory : Memory) (image : List UInt8) : Prop where
  inside : ∀ i < image.length, memory.get? (0x200 + i) = image[i]?
  elsewhere : ∀ address < 0x1000, address < 0x200 ∨ 0x200 + image.length ≤ address →
    memory.get? address = some 0

namespace Machine

private theorem holds_memoryOf {program : List UInt8} (hFits : program.length ≤ programCapacity) :
    (memoryOf program).Holds program where
  inside i hi := by
    have hInside : programStart ≤ 0x200 + i ∧ 0x200 + i - programStart < program.length := by
      simp only [programStart]
      omega
    have hIndex : 0x200 + i - programStart = i := Nat.add_sub_cancel_left 0x200 i
    rw [get?_memoryOf hFits, if_pos hInside, hIndex]
  elsewhere address hAddress hOutside := by
    have hNot : ¬ (programStart ≤ address ∧ address - programStart < program.length) := by
      simp only [programStart]
      omega
    rw [get?_memoryOf hFits, if_neg hNot, if_pos (show address < memorySize from hAddress)]

/-- A reset copies the program into cleared memory, and a check of the block would let
it pass. -/
theorem store_reset (m : Machine) :
    m.memory.clear.store programStart m.program = .ok m.reset.memory := by
  have hFits : m.program.length ≤ programCapacity := m.program_fits
  refine Memory.store_eq_ok_iff.2 ⟨?_, rfl⟩
  simp only [programStart, memorySize, programCapacity] at *
  omega

private theorem holds_reset (m : Machine) : m.reset.memory.Holds m.program := by
  have hMemory : m.reset.memory = memoryOf m.program := congrArg (·.memory) (toCore_reset m)
  rw [hMemory]
  exact holds_memoryOf m.program_fits

/-- A program that fits is loaded, whatever the machine did before. -/
theorem exists_load_of_fits {image : List UInt8} (hFits : image.length ≤ programCapacity)
    (m : Machine) : ∃ m', m.load image = .ok m' ∧ m'.program = image ∧
      m.memory.clear.store programStart image = .ok m'.memory ∧ m'.memory.Holds image := by
  have hLoaded : m.load image = .ok (reset { m with program := image, program_fits := hFits }) :=
    load_eq_ok_iff.2 ⟨hFits, rfl⟩
  exact ⟨_, hLoaded, rfl, store_reset { m with program := image, program_fits := hFits },
    holds_reset { m with program := image, program_fits := hFits }⟩

end Machine

namespace Asm

/-! ## The checks of the assembler -/

/-- Instructions are encoded exactly if each of them is, and if their words fit
together. -/
theorem encodeAll_eq_ok_iff {cs : List Command} {image : List UInt8} :
    encodeAll cs = .ok image ↔
      (∃ ws, cs.mapM Command.encode = .ok ws ∧ ws.flatMap wordBytes = image) ∧
        image.length ≤ programCapacity := by
  simp only [mapM_eq_ok_iff]
  constructor
  · intro hEncoded
    have hFits := length_encodeAll_le hEncoded
    have hSize : 0 + 2 * cs.length ≤ programCapacity := by
      have hLength := (length_encodeFrom hEncoded).1
      omega
    exact ⟨(encodeFrom_eq_ok_iff hSize).1 hEncoded, hFits⟩
  · intro hGiven
    rcases hGiven with ⟨⟨ws, hWords, rfl⟩, hFits⟩
    have hSize : 0 + 2 * cs.length ≤ programCapacity := by
      rw [length_flatMap_wordBytes, ← hWords.length_eq] at hFits
      omega
    exact (encodeFrom_eq_ok_iff hSize).2 ⟨ws, hWords, rfl⟩

/-- Statements have an image: each of them lies in the memory for programs where it says
that it lies, the labels are known, and each instruction has a word. -/
def StatementsHaveImage (statements : List Statement) (image : List UInt8) : Prop :=
  ∃ table commands ws, SymbolTable.ofStatements? statements = .ok table ∧
    (commandsOf statements).mapM table.resolve = .ok commands ∧
      commands.mapM Command.encode = .ok ws ∧ ws.flatMap wordBytes = image

theorem StatementsHaveImage.unique {statements : List Statement} {image image' : List UInt8}
    (hImage : StatementsHaveImage statements image)
    (hImage' : StatementsHaveImage statements image') : image = image' := by
  rcases hImage with ⟨table, commands, ws, hTable, hCommands, hWords, rfl⟩
  rcases hImage' with ⟨table', commands', ws', hTable', hCommands', hWords', rfl⟩
  obtain rfl := Except.ok.inj (hTable.symm.trans hTable')
  obtain rfl := Except.ok.inj (hCommands.symm.trans hCommands')
  obtain rfl := Except.ok.inj (hWords.symm.trans hWords')
  rfl

namespace ObjectFile

/-- What was assembled from statements, however they came together. -/
theorem ofStatements_image_iff {keepSymbols : Bool} {statements : List Statement}
    {image : List UInt8} :
    (∃ o, ofStatements keepSymbols statements = .ok o ∧ o.image = image) ↔
      StatementsHaveImage statements image ∧ image.length ≤ programCapacity := by
  constructor
  · intro hGiven
    rcases hGiven with ⟨o, hAssembled, rfl⟩
    rcases exists_of_bind_eq_ok hAssembled with ⟨table, hTable, hResolved⟩
    rcases ofResolved_eq_ok_iff.1 hResolved with ⟨commands, hCommands, hEncoded, -⟩
    rcases encodeAll_eq_ok_iff.1 hEncoded with ⟨⟨ws, hWords, hImage⟩, hFits⟩
    exact ⟨⟨table, commands, ws, hTable, hCommands, hWords, hImage⟩, hFits⟩
  · intro hGiven
    rcases hGiven with ⟨⟨table, commands, ws, hTable, hCommands, hWords, hImage⟩, hFits⟩
    have hEncoded : encodeAll commands = .ok image :=
      encodeAll_eq_ok_iff.2 ⟨⟨ws, hWords, hImage⟩, hFits⟩
    refine ⟨⟨image, if keepSymbols then some table else none, hFits⟩, ?_, rfl⟩
    rw [ofStatements, hTable]
    exact ofResolved_eq_ok_iff.2 ⟨commands, hCommands, hEncoded, rfl⟩

/-! ## The checks of the readers -/

theorem ofBytes?_image_iff {image image' : List UInt8} :
    (∃ o, ofBytes? image' = some o ∧ o.image = image) ↔
      image' = image ∧ image.length ≤ programCapacity := by
  constructor
  · intro hGiven
    rcases hGiven with ⟨o, hBytes, rfl⟩
    exact ⟨(ofBytes?_eq_some_iff.1 hBytes).1.symm, o.fits⟩
  · intro hGiven
    rcases hGiven with ⟨rfl, hFits⟩
    exact ⟨⟨image', none, hFits⟩, ofBytes?_eq_some_iff.2 ⟨rfl, rfl⟩, rfl⟩

/-- Labels that are read beside the bytes make no difference to the image. -/
theorem ofBytes?_symbols_image_iff {image image' : List UInt8} (symbols : Option SymbolTable) :
    (∃ o, (ofBytes? image').map (fun o => { o with symbols }) = some o ∧ o.image = image) ↔
      image' = image ∧ image.length ≤ programCapacity := by
  rw [← ofBytes?_image_iff]
  constructor
  · intro hGiven
    rcases hGiven with ⟨_, hRead, hSame⟩
    rcases Option.map_eq_some_iff.1 hRead with ⟨o, hBytes, rfl⟩
    exact ⟨o, hBytes, hSame⟩
  · intro hGiven
    rcases hGiven with ⟨o, hBytes, hSame⟩
    exact ⟨{ o with symbols }, by rw [hBytes, Option.map_some], hSame⟩

/-- Chunks have an image if one of them is an image, and not more than one holds
labels. -/
def ChunksHaveImage (chunks : List Chunk) (image : List UInt8) : Prop :=
  chunks.filterMap Chunk.image? = [image] ∧ (chunks.filterMap Chunk.labels?).length ≤ 1

private theorem ofChunks?_image_iff {chunks : List Chunk} {image : List UInt8} :
    (∃ o, ofChunks? chunks = some o ∧ o.image = image) ↔
      ChunksHaveImage chunks image ∧ image.length ≤ programCapacity := by
  unfold ofChunks? ChunksHaveImage
  split
  · rename_i image' hImages hLabels
    simpa [hImages, hLabels] using ofBytes?_image_iff
  · rename_i image' records hImages hLabels
    simpa [hImages, hLabels] using ofBytes?_symbols_image_iff (some (.ofRecords records))
  · rename_i hNone hOne
    constructor
    · intro hGiven
      rcases hGiven with ⟨o, hRead, -⟩
      cases hRead
    · intro hGiven
      rcases hGiven with ⟨⟨hImages, hLabels⟩, -⟩
      rcases hList : chunks.filterMap Chunk.labels? with _ | ⟨records, _ | ⟨records', rest⟩⟩
      · exact (hNone image hImages hList).elim
      · exact (hOne image records hImages hList).elim
      · rw [hList] at hLabels
        simp at hLabels

/-- A binary file has an image if it has the header, is made of chunks, and these have
one. -/
def BinaryHasImage (file : List UInt8) (image : List UInt8) : Prop :=
  ∃ chunks : List Chunk, (∀ c ∈ chunks, c.Narrow) ∧
    file = binaryHeader ++ chunks.flatMap Chunk.toBytes ∧ ChunksHaveImage chunks image

theorem ofBinary?_image_iff {file image : List UInt8} :
    (∃ o, ofBinary? file = some o ∧ o.image = image) ↔
      BinaryHasImage file image ∧ image.length ≤ programCapacity := by
  constructor
  · intro hGiven
    rcases hGiven with ⟨o, hRead, hSame⟩
    rcases ofBinary?_eq_some_iff.1 hRead with ⟨chunks, hNarrow, hFile, hChunks⟩
    rcases ofChunks?_image_iff.1 ⟨o, hChunks, hSame⟩ with ⟨hImage, hFits⟩
    exact ⟨⟨chunks, hNarrow, hFile, hImage⟩, hFits⟩
  · intro hGiven
    rcases hGiven with ⟨⟨chunks, hNarrow, hFile, hImage⟩, hFits⟩
    rcases ofChunks?_image_iff.2 ⟨hImage, hFits⟩ with ⟨o, hChunks, hSame⟩
    exact ⟨o, ofBinary?_eq_some_iff.2 ⟨chunks, hNarrow, hFile, hChunks⟩, hSame⟩

/-- A text file has an image if it has the header, and if its lines are read one by
one. -/
def TextualHasImage (text : String) (image : List UInt8) : Prop :=
  ∃ lines symbols, meaningfulLines text.toList = textualHeader.toList :: lines ∧
    readLines? none 0 none lines = some (image, symbols)

theorem ofTextual?_image_iff {text : String} {image : List UInt8} :
    (∃ o, ofTextual? text = some o ∧ o.image = image) ↔
      TextualHasImage text image ∧ image.length ≤ programCapacity := by
  unfold ofTextual? TextualHasImage
  rcases meaningfulLines text.toList with _ | ⟨first, lines⟩
  · simp
  · by_cases hFirst : first = textualHeader.toList
    · subst hFirst
      rcases hRead : readLines? none 0 none lines with _ | ⟨image', symbols⟩
      · simp [hRead]
      · simpa [hRead, Option.map_eq_bind] using ofBytes?_symbols_image_iff symbols
    · simp [hFirst]

end ObjectFile

/-! ## All origins -/

/-- What an object file is made from. -/
inductive Origin where
  | nothing
  | bytes (image : List UInt8)
  /-- Statements, whatever their addresses are. -/
  | statements (keepSymbols : Bool) (row : List Statement)
  | source (text : String)
  | binary (file : List UInt8)
  | textual (file : String)

namespace Origin

/-- The object file that is made, unless the origin is refused. -/
def objectFile? : Origin → Option ObjectFile
  | nothing => some .empty
  | bytes image => ObjectFile.ofBytes? image
  | statements keepSymbols row => (ObjectFile.ofStatements keepSymbols row).toOption
  | source text => (ObjectFile.ofSource text).toOption
  | binary file => ObjectFile.ofBinary? file
  | textual file => ObjectFile.ofTextual? file

/-- The image of an origin, whether or not it fits. -/
def HasImage : Origin → List UInt8 → Prop
  | nothing, image => image = []
  | bytes image', image => image' = image
  | statements _ row, image => StatementsHaveImage row image
  | source text, image => ∃ row, parse text = .ok row ∧ StatementsHaveImage row image
  | binary file, image => ObjectFile.BinaryHasImage file image
  | textual file, image => ObjectFile.TextualHasImage file image

/-- An origin has one image at most. -/
theorem HasImage.unique {origin : Origin} {image image' : List UInt8}
    (hImage : origin.HasImage image) (hImage' : origin.HasImage image') : image = image' := by
  cases origin with
  | nothing => exact hImage.trans hImage'.symm
  | bytes bytes => exact hImage.symm.trans hImage'
  | statements keepSymbols row => exact StatementsHaveImage.unique hImage hImage'
  | source text =>
      rcases hImage with ⟨row, hParse, hRow⟩
      rcases hImage' with ⟨row', hParse', hRow'⟩
      obtain rfl := Except.ok.inj (hParse.symm.trans hParse')
      exact hRow.unique hRow'
  | binary file =>
      rcases hImage with ⟨chunks, hNarrow, hFile, hChunks, -⟩
      rcases hImage' with ⟨chunks', hNarrow', hFile', hChunks', -⟩
      have hRead := readChunks?_eq_some_iff.2 ⟨hNarrow, rfl⟩
      have hRead' := readChunks?_eq_some_iff.2
        ⟨hNarrow', List.append_cancel_left (hFile.symm.trans hFile')⟩
      obtain rfl := Option.some.inj (hRead.symm.trans hRead')
      exact List.head_eq_of_cons_eq (hChunks.symm.trans hChunks')
  | textual file =>
      rcases hImage with ⟨lines, symbols, hLines, hRead⟩
      rcases hImage' with ⟨lines', symbols', hLines', hRead'⟩
      obtain rfl := List.tail_eq_of_cons_eq (hLines.symm.trans hLines')
      exact (Prod.mk.inj (Option.some.inj (hRead.symm.trans hRead'))).1

private theorem toOption_eq_some_iff {ε α : Type} {outcome : Except ε α} {a : α} :
    outcome.toOption = some a ↔ outcome = .ok a := by
  cases outcome <;> simp [Except.toOption]

/-- An origin becomes an object file exactly if it has an image that fits, and the
object file then has this image. -/
theorem exists_objectFile?_iff (origin : Origin) (image : List UInt8) :
    (∃ o, origin.objectFile? = some o ∧ o.image = image) ↔
      origin.HasImage image ∧ image.length ≤ programCapacity := by
  cases origin with
  | nothing =>
      constructor
      · intro hGiven
        rcases hGiven with ⟨o, hMade, rfl⟩
        obtain rfl : ObjectFile.empty = o := Option.some.inj hMade
        exact ⟨rfl, Nat.zero_le _⟩
      · intro hGiven
        rcases hGiven with ⟨rfl, -⟩
        exact ⟨.empty, rfl, rfl⟩
  | bytes image' => exact ObjectFile.ofBytes?_image_iff
  | statements keepSymbols row =>
      simp only [objectFile?, toOption_eq_some_iff]
      exact ObjectFile.ofStatements_image_iff
  | source text =>
      simp only [objectFile?, toOption_eq_some_iff, HasImage]
      cases hParse : parse text with
      | error e => simp [ObjectFile.ofSource, hParse]
      | ok row =>
          rw [ObjectFile.ofSource_of_parse hParse, ObjectFile.ofStatements_image_iff]
          simp
  | binary file => exact ObjectFile.ofBinary?_image_iff
  | textual file => exact ObjectFile.ofTextual?_image_iff

/-- Where the image is too large, there is no object file. -/
theorem objectFile?_eq_none {origin : Origin} {image : List UInt8} (hImage : origin.HasImage image)
    (hLarge : programCapacity < image.length) : origin.objectFile? = none := by
  cases hMade : origin.objectFile? with
  | none => rfl
  | some o =>
      rcases (origin.exists_objectFile?_iff o.image).1 ⟨o, hMade, rfl⟩ with ⟨hOwn, hFits⟩
      obtain rfl := hImage.unique hOwn
      exact absurd hFits (Nat.not_le.2 hLarge)

/-- Object files fit, wherever they come from: an origin becomes an object file exactly
if it has an image that fits, and is refused where the image is too large. Any machine
loads the object file, and what is in its memory afterwards is the image and nothing
else. A reset never writes outside of memory, whatever the machine has done, and brings
the program back. -/
theorem objectFile?_fits_and_loads (origin : Origin) :
    (∀ image, (∃ o, origin.objectFile? = some o ∧ o.image = image) ↔
      origin.HasImage image ∧ image.length ≤ 3584) ∧
    (∀ image, origin.HasImage image → 3584 < image.length → origin.objectFile? = none) ∧
    (∀ o, origin.objectFile? = some o →
      o.image.length ≤ 3584 ∧ ∀ m : Machine, ∃ m', m.load o.image = .ok m' ∧
        m'.program = o.image ∧ m.memory.clear.store 0x200 o.image = .ok m'.memory ∧
          m'.memory.Holds o.image) ∧
    ∀ m : Machine, m.memory.clear.store 0x200 m.program = .ok m.reset.memory ∧
      m.reset.memory.Holds m.program := by
  refine ⟨origin.exists_objectFile?_iff, fun image => objectFile?_eq_none, fun o hMade => ?_,
    fun m => ⟨m.store_reset, m.holds_reset⟩⟩
  have hFits : o.image.length ≤ programCapacity :=
    ((origin.exists_objectFile?_iff o.image).1 ⟨o, hMade, rfl⟩).2
  exact ⟨hFits, Machine.exists_load_of_fits hFits⟩

/-- An instruction that clears the screen, and that says that it lies at the start of
the memory for programs. -/
def clearing : Command :=
  ⟨.keyword (.mnemonic .cls), .plain, [⟨.ident (.keyword (.mnemonic .cls)), ⟨0, 3⟩⟩], 0x200⟩

/-- That instruction many times over. -/
def clearingTimes (n : Nat) : Origin := .statements true (List.replicate n (.command clearing))

/-- The first pass lets any number of instructions pass that all lie at one address. -/
private theorem hasImage_clearingTimes (n : Nat) :
    (clearingTimes n).HasImage ((List.replicate n 0x00E0).flatMap wordBytes) := by
  have hResolve : SymbolTable.empty.resolve clearing = .ok clearing := rfl
  have hEncode : clearing.encode = .ok 0x00E0 := rfl
  show StatementsHaveImage _ _
  refine ⟨.empty, List.replicate n clearing, List.replicate n 0x00E0, ?_, ?_, ?_, rfl⟩
  · induction n with
    | zero => rfl
    | succ n ih => exact ih
  · induction n with
    | zero => rfl
    | succ n ih =>
        rw [List.replicate_succ, commandsOf_command, List.mapM_cons, hResolve, ih]
        rfl
  · induction n with
    | zero => rfl
    | succ n ih =>
        rw [List.replicate_succ, List.mapM_cons, hEncode, ih]
        rfl

theorem objectFile?_fits_and_loads_one_address :
    (∃ o m', (clearingTimes 1792).objectFile? = some o ∧
      o.image.length = 3584 ∧ (Machine.start (some 5) 40).load o.image = .ok m' ∧
        m'.memory.get? 0x1FF = some 0 ∧ m'.memory.get? 0xFFF = some 0xE0) ∧
    (clearingTimes 1793).HasImage ((List.replicate 1793 0x00E0).flatMap wordBytes) ∧
    (clearingTimes 1793).objectFile? = none := by
  have hLength : ∀ n, ((List.replicate n 0x00E0).flatMap wordBytes).length = 2 * n := by
    intro n
    rw [length_flatMap_wordBytes, List.length_replicate]
  have hLast : ((List.replicate 1792 0x00E0).flatMap wordBytes)[3583]? = some 0xE0 := by
    decide +kernel
  refine ⟨?_, hasImage_clearingTimes 1793, ?_⟩
  · rcases objectFile?_fits_and_loads (clearingTimes 1792) with ⟨hMade, -, hLoads, -⟩
    rcases (hMade _).2 ⟨hasImage_clearingTimes 1792, Nat.le_of_eq (hLength 1792)⟩ with
      ⟨o, ho, hImage⟩
    rcases hLoads o ho with ⟨-, hLoad⟩
    rcases hLoad (Machine.start (some 5) 40) with ⟨m', hm', -, -, hHolds⟩
    have hSize : o.image.length = 3584 := hImage ▸ hLength 1792
    rw [← hImage] at hLast
    exact ⟨o, m', ho, hSize, hm', hHolds.elsewhere 0x1FF (by decide) (.inl (by decide)),
      (hHolds.inside 3583 (by omega)).trans hLast⟩
  · rcases objectFile?_fits_and_loads (clearingTimes 1793) with ⟨-, hRefused, -, -⟩
    have hLarge := hLength 1793
    exact hRefused _ (hasImage_clearingTimes 1793) (by omega)

end Origin

end Asm

end Chip8

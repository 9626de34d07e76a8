import Chip8.Proofs.Listing
import Chip8.Proofs.Loading
import Chip8.Proofs.Machine.Failing

/-!
# The views of a loaded program

The words of an object file can be seen in several ways: the object file lists them
itself, its image can be listed without a machine, and when a machine has loaded it, so
can a window of memory and the program that memory holds. They pair up the bytes in
different ways, and they treat the last byte of an image of odd length and the zeros
behind the image differently.

In memory there are zeros behind the image, and an even number of bytes from the start
of a program to the end. So the word of a last single byte has a zero as its low byte,
which is how the object file completes it, and whatever a listing takes away as zeros
behind the image, it would take away from the words of the image as well.

A line of a listing decodes its word just as a machine does that fetches the instruction
there.

## Main results

* `windowFrom_eq` — a window shows words that follow each other.
* `Memory.Holds.wordsOf_drop` — the words of a memory that holds an image.
* `Shows.of_append_replicate_zero` — zeros behind a row of words make no difference to
  what is shown.
* `listWindow_of_holds`, `exists_listMemory_of_holds` — a memory that holds an image.
* `word?_of_mem_listWindow`, `instruction?_iff_fetch` — lines and fetching.
* `views_agree` — all views of an object file that a machine has loaded.
-/

namespace Chip8

/-! ## The image in memory -/

theorem Memory.getElem?_toList_bytes (memory : Memory) (address : Nat) :
    memory.bytes.toList[address]? = memory.get? address := by
  rw [get?, Vector.getElem?_toList]

/-- The words of a memory are those of the list of its bytes. -/
theorem Memory.word?_eq_wordAt? (memory : Memory) (address : Nat) :
    memory.word? address = Listing.wordAt? memory.bytes.toList address := by
  simp only [word?, Listing.wordAt?, getElem?_toList_bytes]

namespace Memory.Holds

variable {memory : Memory} {image : List UInt8}

/-- Behind an image there are zeros. -/
theorem drop_bytes (hHolds : memory.Holds image) :
    memory.bytes.toList.drop 0x200 = image ++ List.replicate (0xE00 - image.length) 0 := by
  refine List.ext_getElem? fun k => ?_
  rw [List.getElem?_drop, Memory.getElem?_toList_bytes]
  rcases Nat.lt_or_ge k image.length with hInside | hBehind
  · rw [hHolds.inside k hInside, List.getElem?_append_left hInside]
  · rw [List.getElem?_append_right hBehind, List.getElem?_replicate]
    by_cases hMemory : 0x200 + k < 0x1000
    · have hZeros : k - image.length < 0xE00 - image.length := by omega
      rw [hHolds.elsewhere _ hMemory (.inr (by omega)), if_pos hZeros]
    · have hEnd : ¬ k - image.length < 0xE00 - image.length := by omega
      rw [if_neg hEnd, ← Option.not_isSome_iff_eq_none, Memory.get?_isSome]
      exact hMemory

/-- The words from the start of a program on are those of the image, completed by a zero
byte if need be, and zeros. -/
theorem wordsOf_drop (hHolds : memory.Holds image) (hFits : image.length ≤ programCapacity) :
    wordsOf (memory.bytes.toList.drop 0x200) =
      paddedWordsOf image ++ List.replicate ((0xE00 - image.length) / 2) 0 := by
  have hEven : (image.length + (0xE00 - image.length)) % 2 = 0 := by
    simp only [programCapacity, memorySize, programStart] at hFits
    omega
  rw [hHolds.drop_bytes, wordsOf_append_replicate_zero hEven]

end Memory.Holds

namespace Listing

/-! ## Windows -/

variable {memory : List UInt8} {words listed : List UInt16} {line : Line}

/-- A window shows words that follow each other. -/
theorem windowFrom_eq (memory : List UInt8) (address count : Nat) :
    windowFrom memory address count =
      lines (UInt16.ofNat address) ((wordsOf (memory.drop address)).take count) := by
  induction count generalizing address with
  | zero => rfl
  | succ count ih =>
      unfold windowFrom
      cases hWord : wordAt? memory address with
      | none =>
          rw [wordsOf_drop_of_wordAt?_eq_none hWord]
          rfl
      | some word =>
          rw [wordsOf_drop_of_wordAt?_eq_some hWord, List.take_succ_cons, lines_cons, ih,
            UInt16.ofNat_add]
          rfl

/-- A line of a window of memory shows the word at its address. -/
theorem word?_of_mem_listWindow {memory : Memory} {address : UInt16} {count : Nat}
    (hLine : line ∈ listWindow memory.bytes.toList address count) :
    memory.word? line.address.toNat = some line.word := by
  unfold listWindow at hLine
  generalize address.toNat = start at hLine
  induction count generalizing start with
  | zero => cases hLine
  | succ count ih =>
      unfold windowFrom at hLine
      cases hWord : wordAt? memory.bytes.toList start with
      | none => simp [hWord] at hLine
      | some word =>
          simp only [hWord, List.mem_cons] at hLine
          rcases hLine with rfl | hLater
          · have hBound := lt_of_wordAt?_eq_some hWord
            have hAddress : (UInt16.ofNat start).toNat = start := by
              rw [Vector.length_toList, memorySize] at hBound
              rw [UInt16.toNat_ofNat']
              omega
            rw [hAddress, Memory.word?_eq_wordAt?, hWord]
          · exact ih (start + 2) hLater

/-! ## Zeros behind a row -/

theorem rdropWhile_append_replicate_zero (words : List UInt16) (n : Nat) :
    (words ++ List.replicate n 0).rdropWhile (· = 0) = words.rdropWhile (· = 0) := by
  induction n with
  | zero => rw [List.replicate_zero, List.append_nil]
  | succ n ih =>
      rw [List.replicate_succ', ← List.append_assoc, List.rdropWhile_concat_pos _ _ _ (by simp), ih]

/-- Zeros behind a row of words make no difference to what is shown of it: what they are
cut off with, or taken away with, is zero. -/
theorem Shows.of_append_replicate_zero {n : Nat}
    (hShows : Shows (words ++ List.replicate n 0) listed) : Shows words listed := by
  have hTake : ∀ k, words.take k = (words ++ List.replicate n 0).take (min k words.length) := by
    intro k
    rw [List.take_append_of_le_length (Nat.min_le_right _ _), List.take_eq_take_min]
  rcases hShows with ⟨stop, hBreaks, rfl⟩
  rcases Nat.lt_or_ge words.length stop with hBehind | hInside
  · -- There is no run in front of the zeros, and the row is shown to its end.
    refine ⟨words.length, .inr ⟨fun k hRun => ?_, rfl⟩, ?_⟩
    · rw [hTake] at hRun
      rcases hBreaks with ⟨-, hLeast⟩ | ⟨hNone, -⟩
      · have hStop : stop ≤ min k words.length := hLeast hRun
        omega
      · exact hNone _ hRun
    · rw [List.take_append, List.take_of_length_le hBehind.le, List.take_replicate,
        rdropWhile_append_replicate_zero, List.take_length]
  · have hSame : words.take stop = (words ++ List.replicate n 0).take stop :=
      (List.take_append_of_le_length hInside).symm
    refine ⟨stop, ?_, by rw [hSame]⟩
    rcases hBreaks with ⟨hRun, hLeast⟩ | ⟨hNone, hEnd⟩
    · refine .inl ⟨?_, fun k hEarlier => ?_⟩
      · show List.replicate zeroRun 0 <:+ _
        rw [hSame]
        exact hRun
      · have hStop : stop ≤ min k words.length := by
          refine hLeast ?_
          show List.replicate zeroRun 0 <:+ _
          rw [← hTake]
          exact hEarlier
        omega
    · refine .inr ⟨fun k => hTake k ▸ hNone _, ?_⟩
      rw [List.length_append] at hEnd
      omega

/-! ## Listings of memory that holds an image -/

section Holds

variable {memory : Memory} {image : List UInt8}

/-- A window of as many words as the image has shows them all. -/
theorem listWindow_of_holds (hHolds : memory.Holds image) (hFits : image.length ≤ programCapacity) :
    listWindow memory.bytes.toList 0x200 ((image.length + 1) / 2) =
      lines 0x200 (paddedWordsOf image) := by
  have hStart : (0x200 : UInt16).toNat = 0x200 := rfl
  rw [listWindow, windowFrom_eq, hStart, hHolds.wordsOf_drop hFits, ← length_paddedWordsOf,
    List.take_left]
  rfl

/-- The listing of memory shows the words of the image up to some place, as far as words
are shown that are cut behind a run of zeros. -/
theorem exists_listMemory_of_holds (hHolds : memory.Holds image)
    (hFits : image.length ≤ programCapacity) :
    ∃ n, listMemory memory.bytes.toList = (lines 0x200 (paddedWordsOf image)).take n ∧
      Shows (paddedWordsOf image) ((paddedWordsOf image).take n) := by
  have hWhole : programWords memory.bytes.toList = wordsOf (memory.bytes.toList.drop 0x200) := by
    rw [programWords, List.take_of_length_le (by rw [Vector.length_toList])]
    rfl
  rcases exists_shows_listMemory memory.bytes.toList with ⟨listed, hShows, hListing⟩
  rw [hWhole, hHolds.wordsOf_drop hFits] at hShows
  have hShown := hShows.of_append_replicate_zero
  have hListed : listed = (paddedWordsOf image).take listed.length :=
    List.prefix_iff_eq_take.1 hShown.isPrefix
  refine ⟨listed.length, ?_, ?_⟩
  · rw [take_lines, ← hListed, hListing]
    rfl
  · rwa [← hListed]

end Holds

/-! ## Lines and fetching -/

/-- A machine fetches the instruction of a line, or fails by its word. -/
theorem instruction?_iff_fetch {now : Machine} (hOn : ¬ Core.OffProgram now.pc)
    (hWord : now.memory.word? now.pc.toNat = some line.word) :
    (∀ i, line.instruction? = some i ↔ now.fetch = .ok i) ∧
      (line.instruction? = none ↔ now.stepIn.2 = some (.illegalOpcode line.word)) := by
  rcases Core.exists_fetch hOn with ⟨word, hThere, hIllegal, hDecoded⟩
  obtain rfl : line.word = word := Option.some.inj (hWord.symm.trans hThere)
  cases hDecode : Instruction.decode? line.word with
  | none =>
      have hFetch := hIllegal hDecode
      have hStep : now.stepIn.2 = some (.illegalOpcode line.word) :=
        Machine.fault_step_of_fetch_error hFetch
      simp [Line.instruction?, hDecode, hFetch, hStep]
  | some i =>
      have hFetch := hDecoded i hDecode
      have hStep : now.stepIn.2 = i.refusal? now.toCore := Machine.fault_step_of_fetch_ok hFetch
      simp [Line.instruction?, hDecode, hFetch, hStep, Instruction.refusal?_eq_some_iff]

/-! ## The views -/

open Asm

/-- Any machine loads an object file. A window of its memory then shows the words of the
object file at their addresses, the listing of the image is this window except for a
last single byte, and the listing of memory shows the window without what is cut behind
five zero words in a row and without the zero words at its end. Wherever a window shows
a word that a machine with this memory can fetch, the instruction that it shows is the
one that is fetched, and it shows none exactly if a step there fails by this word. -/
theorem views_agree (o : ObjectFile) (m : Machine) :
    ∃ m', m.load o.image = .ok m' ∧
      let shown := listWindow m'.memory.bytes.toList 0x200 ((o.image.length + 1) / 2)
      (shown.map (fun line => (line.address, line.word)) = o.words ∧
        listImage? o.image = some (shown.take (o.image.length / 2)) ∧
        ∃ n, listMemory m'.memory.bytes.toList = shown.take n ∧
          Shows (shown.map (·.word)) ((shown.take n).map (·.word))) ∧
      ∀ address count line, line ∈ listWindow m'.memory.bytes.toList address count →
        line.address.toNat % 2 = 0 → 0x200 ≤ line.address.toNat →
          ∀ now : Machine, now.memory = m'.memory → now.pc = line.address →
            (∀ i, line.instruction? = some i ↔ now.fetch = .ok i) ∧
            (line.instruction? = none ↔ now.stepIn.2 = some (.illegalOpcode line.word)) := by
  rcases Machine.exists_load_of_fits o.fits m with ⟨m', hLoad, -, -, hHolds⟩
  refine ⟨m', hLoad, ?_, fun address count line hLine hEven hStart now hMemory hPc => ?_⟩
  · rw [listWindow_of_holds hHolds o.fits]
    rcases exists_listMemory_of_holds hHolds o.fits with ⟨n, hListing, hShows⟩
    refine ⟨map_lines _ _, ?_, n, hListing, ?_⟩
    · rw [take_lines, take_paddedWordsOf]
      exact listImage?_of_length_le o.fits
    · rwa [take_lines, map_word_lines, map_word_lines]
  · have hWord : now.memory.word? now.pc.toNat = some line.word := by
      rw [hMemory, hPc]
      exact word?_of_mem_listWindow hLine
    have hOn : ¬ Core.OffProgram now.pc := by
      have hSome := (Memory.word?_isSome now.memory now.pc.toNat).1 (by rw [hWord]; rfl)
      rw [hPc, memorySize] at hSome
      simp only [Core.OffProgram, hPc]
      omega
    exact instruction?_iff_fetch hOn hWord

/-- An image of one instruction, a word that is none, and a last single byte. -/
def withSingleByte : ObjectFile := ⟨[0x00, 0xE0, 0xFF, 0xFF, 0x12], none, by decide⟩

theorem views_agree_with_single_byte :
    ∃ m' line, (Machine.start (some 5) 40).load withSingleByte.image = .ok m' ∧
      line ∈ listWindow m'.memory.bytes.toList 0x200 3 ∧ line = ⟨0x202, 0xFFFF⟩ ∧
      line.instruction? = none ∧
      ({ m' with pc := 0x202 } : Machine).stepIn.2 = some (.illegalOpcode 0xFFFF) := by
  rcases views_agree withSingleByte (Machine.start (some 5) 40) with
    ⟨m', hLoad, ⟨hWords, -, -⟩, hFetch⟩
  have hShown : (0x202, 0xFFFF) ∈ withSingleByte.words := by decide
  rw [← hWords, List.mem_map] at hShown
  rcases hShown with ⟨line, hLine, hPair⟩
  obtain ⟨hAddress, hWord⟩ := Prod.mk.inj hPair
  have hNone : line.instruction? = none := by
    rw [Line.instruction?, hWord]
    decide +kernel
  have hStep := (hFetch 0x200 3 line hLine (by rw [hAddress]; decide) (by rw [hAddress]; decide)
    { m' with pc := 0x202 } rfl hAddress.symm).2.1 hNone
  rw [hWord] at hStep
  refine ⟨m', line, hLoad, hLine, ?_, hNone, hStep⟩
  cases line
  simp only [Line.mk.injEq] at *
  exact ⟨hAddress, hWord⟩

end Listing

end Chip8

import Chip8.Listing
import Mathlib.Data.List.DropRight
import Mathlib.Order.Bounds.Defs

/-!
# What a listing of memory shows

A listing of memory goes through the words of the program one by one, and looks at none
of them again. It counts the zero words that it has just listed, stops when there are
five of them, and takes as many lines away as it has counted.

The count is the number of zero words at the end of what has been listed, and there have
not been five of them in a row before. This is kept by every word, and it is all that is
needed: where the loop stops, the first run of five zero words ends or the words do, and
the lines that are taken away are the zero words at the end.

## Main definitions

* `programWords` — the words of a memory from the start of a program on.
* `BreaksOff` — where a row of words is cut, behind its first run of zeros.
* `Shows` — what is left of a row of words when it has been cut and its last zeros are
  gone.
* `Passed` — the invariant of the loop.

## Main results

* `Passed.step`, `Passed.breaksOff_listFrom` — one word, and the loop.
* `Shows.isPrefix`, `Shows.ne_zero_of_getLast?`, `Shows.not_infix`,
  `Shows.getElem?_of_ne_zero` — what is shown.
* `listMemory_shows_program` — the listing of any memory.
-/

namespace Chip8.Listing

/-! ## The words of a memory -/

variable {memory : List UInt8} {address zeros stop k : Nat} {word : UInt16}
  {words front listed : List UInt16}

/-- The words at addresses two bytes apart are those of the row of bytes. -/
theorem wordAt?_add (memory : List UInt8) (address k : Nat) :
    wordAt? memory (address + 2 * k) = (wordsOf (memory.drop address))[k]? := by
  rw [getElem?_wordsOf, List.getElem?_drop, List.getElem?_drop, wordAt?, Nat.add_assoc]
  cases memory[address + 2 * k]? with
  | none => rfl
  | some high => cases memory[address + (2 * k + 1)]? <;> rfl

theorem wordsOf_drop_of_wordAt?_eq_none (hNone : wordAt? memory address = none) :
    wordsOf (memory.drop address) = [] := by
  rw [← List.head?_eq_none_iff, List.head?_eq_getElem?, ← wordAt?_add]
  exact hNone

theorem wordsOf_drop_of_wordAt?_eq_some (hWord : wordAt? memory address = some word) :
    wordsOf (memory.drop address) = word :: wordsOf (memory.drop (address + 2)) := by
  refine List.ext_getElem? fun k => ?_
  cases k with
  | zero =>
      rw [← wordAt?_add]
      exact hWord
  | succ k =>
      rw [List.getElem?_cons_succ, ← wordAt?_add, ← wordAt?_add, Nat.mul_succ]
      congr 1
      omega

/-! ## Zeros at the end -/

/-- The number of zero words at the end of a row. -/
def zerosAtEnd (words : List UInt16) : Nat := (words.rtakeWhile (· = 0)).length

private theorem zerosAtEnd_concat (words : List UInt16) (word : UInt16) :
    zerosAtEnd (words ++ [word]) = zerosWith (zerosAtEnd words) word := by
  by_cases hZero : word = 0
  · simp [zerosAtEnd, zerosWith, hZero]
  · simp [zerosAtEnd, zerosWith, hZero]

private theorem replicate_zero_suffix_iff {n : Nat} :
    List.replicate n 0 <:+ words ↔ n ≤ zerosAtEnd words := by
  induction words using List.reverseRecOn generalizing n with
  | nil => simp [zerosAtEnd, List.suffix_nil]
  | append_singleton words word ih =>
      rw [zerosAtEnd_concat]
      cases n with
      | zero => simp
      | succ n =>
          rw [List.replicate_succ', List.suffix_concat_iff]
          by_cases hZero : word = 0
          · simp [zerosWith, hZero, ih]
          · simp [zerosWith, hZero, Ne.symm hZero]

/-- What is left when the zero words at the end have been taken away. -/
theorem take_sub_zerosAtEnd (words : List UInt16) :
    words.take (words.length - zerosAtEnd words) = words.rdropWhile (· = 0) := by
  have hParts : words.rdropWhile (· = 0) ++ words.rtakeWhile (· = 0) = words :=
    List.rdropWhile_append_rtakeWhile
  have hKept : words.length - zerosAtEnd words = (words.rdropWhile (· = 0)).length := by
    have hLength := congrArg List.length hParts
    rw [List.length_append] at hLength
    rw [zerosAtEnd]
    omega
  rw [hKept]
  exact (List.prefix_iff_eq_take.1 (List.rdropWhile_prefix _ words)).symm

/-! ## Where words are cut -/

/-- A row of words is cut behind the first run of zeros in it, or at its end if there is
none. -/
def BreaksOff (words : List UInt16) (stop : Nat) : Prop :=
  IsLeast {k | List.replicate zeroRun 0 <:+ words.take k} stop ∨
    (∀ k, ¬ List.replicate zeroRun 0 <:+ words.take k) ∧ stop = words.length

/-- What is left of a row of words that has been cut, without the zero words at its
end. -/
def Shows (words listed : List UInt16) : Prop :=
  ∃ stop, BreaksOff words stop ∧ listed = (words.take stop).rdropWhile (· = 0)

namespace Shows

/-- Nothing is left out in front of the end. -/
theorem isPrefix (hShows : Shows words listed) : listed <+: words := by
  rcases hShows with ⟨stop, -, rfl⟩
  exact (List.rdropWhile_prefix _ _).trans (List.take_prefix stop words)

/-- The last word is not zero. -/
theorem ne_zero_of_getLast? (hShows : Shows words listed) (hLast : listed.getLast? = some word) :
    word ≠ 0 := by
  rcases hShows with ⟨stop, -, rfl⟩
  rcases List.getLast?_eq_some_iff.1 hLast with ⟨rest, hRest⟩
  have hNonempty : (words.take stop).rdropWhile (· = 0) ≠ [] := by simp [hRest]
  have hLastNot := List.rdropWhile_last_not _ _ hNonempty
  simpa [hRest] using hLastNot

/-- There are never five zero words in a row. -/
theorem not_infix (hShows : Shows words listed) : ¬ List.replicate zeroRun 0 <:+: listed := by
  rintro ⟨front, back, hParts⟩
  -- Such a run is one of the words that were cut, so that it can only be what they end in.
  have hRun : List.replicate zeroRun 0 <:+
      words.take (front ++ List.replicate zeroRun 0).length := by
    have hPrefix : front ++ List.replicate zeroRun 0 <+: words :=
      ⟨back ++ words.drop listed.length, by
        rw [← List.append_assoc, hParts]
        exact List.prefix_iff_eq_append.1 hShows.isPrefix⟩
    rw [← List.prefix_iff_eq_take.1 hPrefix]
    exact List.suffix_append front _
  have hShown := hShows
  rcases hShows with ⟨stop, ⟨-, hLeast⟩ | ⟨hNone, -⟩, hListed⟩
  · have hStop : stop ≤ (front ++ List.replicate zeroRun 0).length := hLeast hRun
    have hListedLength : listed.length ≤ stop := by
      rw [hListed]
      exact (List.rdropWhile_prefix _ _).length_le.trans (List.length_take_le stop words)
    have hBack : back = [] := by
      have hLength := congrArg List.length hParts
      rw [List.length_append] at hLength
      exact List.length_eq_zero_iff.1 (by omega)
    have hLast : listed.getLast? = some 0 := by
      rw [← hParts, hBack, List.append_nil, List.getLast?_append]
      rfl
    exact hShown.ne_zero_of_getLast? hLast rfl
  · exact hNone _ hRun

/-- A word that is not zero is shown, unless the first run of zeros comes before it. -/
theorem getElem?_of_ne_zero (hShows : Shows words listed) (hWord : words[k]? = some word)
    (hNonzero : word ≠ 0) (hEarly : ∀ j ≤ k, ¬ List.replicate zeroRun 0 <:+ words.take j) :
    listed[k]? = some word := by
  rcases hShows with ⟨stop, hBreaks, rfl⟩
  have hInside : k < stop := by
    rcases hBreaks with ⟨hRun, -⟩ | ⟨-, rfl⟩
    · exact Nat.lt_of_not_le fun hBehind => hEarly stop hBehind hRun
    · exact (List.getElem?_eq_some_iff.1 hWord).1
  have hParts : (words.take stop).rdropWhile (· = 0) ++ (words.take stop).rtakeWhile (· = 0) =
      words.take stop := List.rdropWhile_append_rtakeWhile
  have hThere : ((words.take stop).rdropWhile (· = 0) ++
      (words.take stop).rtakeWhile (· = 0))[k]? = some word := by
    rw [hParts, List.getElem?_take_of_lt hInside, hWord]
  rcases Nat.lt_or_ge k ((words.take stop).rdropWhile (· = 0)).length with hKept | hGone
  · rwa [List.getElem?_append_left hKept] at hThere
  · rw [List.getElem?_append_right hGone] at hThere
    have hZero := List.mem_rtakeWhile_imp (List.mem_of_getElem? hThere)
    exact absurd (of_decide_eq_true hZero) hNonzero

end Shows

/-! ## The loop -/

/-- The words that have been listed end in `zeros` zero words, and there was no run of
zeros. -/
structure Passed (front : List UInt16) (zeros : Nat) : Prop where
  zeros_eq : zerosAtEnd front = zeros
  clear : ∀ k, ¬ List.replicate zeroRun 0 <:+ front.take k

private theorem passed_nil : Passed [] 0 where
  zeros_eq := rfl
  clear k := by simp [zeroRun]

namespace Passed

private theorem zeros_lt (hPassed : Passed front zeros) : zeros < zeroRun := by
  have hClear := hPassed.clear front.length
  rw [List.take_length, replicate_zero_suffix_iff, hPassed.zeros_eq] at hClear
  exact Nat.lt_of_not_le hClear

/-- A run of zeros does not end in front of the words that come next. -/
theorem length_lt (hPassed : Passed front zeros) {later : List UInt16}
    (hRun : List.replicate zeroRun 0 <:+ (front ++ later).take k) : front.length < k := by
  refine Nat.lt_of_not_le fun hInside => hPassed.clear k ?_
  rwa [List.take_append_of_le_length hInside] at hRun

/-- One more word, unless it completes a run. -/
theorem step (hPassed : Passed front zeros) (hShort : zerosWith zeros word ≠ zeroRun) :
    Passed (front ++ [word]) (zerosWith zeros word) := by
  have hZeros : zerosAtEnd (front ++ [word]) = zerosWith zeros word := by
    rw [zerosAtEnd_concat, hPassed.zeros_eq]
  refine ⟨hZeros, fun k hRun => ?_⟩
  have hBehind := hPassed.length_lt hRun
  have hWhole : (front ++ [word]).length ≤ k := by
    rw [List.length_append, List.length_singleton]
    exact hBehind
  rw [List.take_of_length_le hWhole, replicate_zero_suffix_iff, hZeros] at hRun
  have hBelow := hPassed.zeros_lt
  have hNext : zerosWith zeros word ≤ zeros + 1 := by
    unfold zerosWith
    split <;> omega
  omega

/-- A word that completes a run is where the words are cut. -/
theorem breaksOff_of_run (hPassed : Passed front zeros) (hRun : zerosWith zeros word = zeroRun)
    (later : List UInt16) : BreaksOff (front ++ word :: later) (front.length + 1) := by
  refine .inl ⟨?_, fun k hEarlier => hPassed.length_lt hEarlier⟩
  have hTaken : (front ++ word :: later).take (front.length + 1) = front ++ [word] :=
    List.take_length_add_append 1
  show List.replicate zeroRun 0 <:+ _
  rw [hTaken, replicate_zero_suffix_iff, zerosAtEnd_concat, hPassed.zeros_eq, hRun]

/-- The loop lists the words up to where they are cut, and counts the zero words at
their end. -/
theorem breaksOff_listFrom (hPassed : Passed front zeros) (memory : List UInt8) (address : Nat) :
    ∃ later, BreaksOff (front ++ wordsOf (memory.drop address)) (front.length + later) ∧
      listFrom memory address zeros =
        (lines (UInt16.ofNat address) ((wordsOf (memory.drop address)).take later),
          zerosAtEnd (front ++ (wordsOf (memory.drop address)).take later)) := by
  fun_induction listFrom memory address zeros generalizing front with
  | case1 address zeros hNone =>
      rw [wordsOf_drop_of_wordAt?_eq_none hNone]
      refine ⟨0, .inr ⟨?_, ?_⟩, ?_⟩
      · simpa using hPassed.clear
      · simp
      · simp [hPassed.zeros_eq, lines, addressed]
  | case2 address zeros word hWord line zeros' =>
      rename_i hRun
      rw [wordsOf_drop_of_wordAt?_eq_some hWord]
      refine ⟨1, hPassed.breaksOff_of_run hRun _, ?_⟩
      have hZeros : zerosAtEnd (front ++ [word]) = zeros' := by
        rw [zerosAtEnd_concat, hPassed.zeros_eq]
      simp [hZeros, lines, addressed, line]
  | case3 address zeros word hWord line zeros' hShort rest last hRest =>
      rename_i ih
      rcases ih (hPassed.step hShort) with ⟨later, hBreaks, hListed⟩
      rcases Prod.mk.inj (hRest.symm.trans hListed) with ⟨rfl, rfl⟩
      rw [wordsOf_drop_of_wordAt?_eq_some hWord]
      have hPlace : front.length + (later + 1) = (front ++ [word]).length + later := by
        rw [List.length_append, List.length_singleton]
        omega
      refine ⟨later + 1, ?_, ?_⟩
      · rwa [hPlace, List.append_cons]
      · rw [List.take_succ_cons, lines_cons, UInt16.ofNat_add, ← List.append_cons]
        rfl

end Passed

/-! ## The listing -/

/-- The words of a memory from the start of a program on. -/
def programWords (memory : List UInt8) : List UInt16 :=
  wordsOf ((memory.take memorySize).drop programStart)

/-- The words are those whose bytes both lie in front of the end. -/
theorem getElem?_programWords_iff :
    (programWords memory)[k]? = some word ↔
      0x200 + 2 * k + 1 < min memory.length 4096 ∧ ∃ high low,
        memory[0x200 + 2 * k]? = some high ∧ memory[0x200 + 2 * k + 1]? = some low ∧
          joinBytes high low = word := by
  rw [programWords, ← wordAt?_add, wordAt?_eq_some_iff]
  constructor
  · rintro ⟨high, low, hHigh, hLow, rfl⟩
    have hInside := (List.getElem?_eq_some_iff.1 hLow).1
    rw [List.length_take] at hInside
    simp only [programStart, memorySize] at hInside hHigh hLow
    rw [List.getElem?_take_of_lt (by omega)] at hHigh hLow
    exact ⟨by omega, high, low, hHigh, hLow, rfl⟩
  · rintro ⟨hInside, high, low, hHigh, hLow, rfl⟩
    refine ⟨high, low, ?_, ?_, rfl⟩
    · rwa [List.getElem?_take_of_lt (by simp only [programStart, memorySize]; omega)]
    · rwa [List.getElem?_take_of_lt (by simp only [programStart, memorySize]; omega)]

/-- The listing of a memory shows the words of the program. -/
theorem exists_shows_listMemory (memory : List UInt8) :
    ∃ listed, Shows (programWords memory) listed ∧
      listMemory memory = lines (UInt16.ofNat programStart) listed := by
  rcases passed_nil.breaksOff_listFrom (memory.take memorySize) programStart with
    ⟨stop, hBreaks, hListed⟩
  simp only [List.nil_append, List.length_nil, Nat.zero_add] at hBreaks hListed
  refine ⟨((programWords memory).take stop).rdropWhile (· = 0), ⟨stop, hBreaks, rfl⟩, ?_⟩
  rw [listMemory, hListed]
  simp only [take_lines, length_lines]
  rw [take_sub_zerosAtEnd]
  rfl

/-- The lines of a listing lie two bytes apart, and each shows the word there and what
it decodes to. -/
theorem of_getElem?_listMemory {line : Line} (hLine : (listMemory memory)[k]? = some line) :
    line.address.toNat = 0x200 + 2 * k ∧ (programWords memory)[k]? = some line.word ∧
      line.instruction? = (programWords memory)[k]?.bind Instruction.decode? := by
  rcases exists_shows_listMemory memory with ⟨listed, hShows, hListing⟩
  rw [hListing, getElem?_lines, Option.map_eq_some_iff] at hLine
  rcases hLine with ⟨word, hWord, rfl⟩
  have hThere : (programWords memory)[k]? = some word := by
    have hInside := (List.getElem?_eq_some_iff.1 hWord).1
    rw [List.prefix_iff_getElem?.1 hShows.isPrefix k hInside, ← hWord,
      List.getElem?_eq_getElem hInside]
  have hBound := (getElem?_programWords_iff.1 hThere).1
  refine ⟨?_, hThere, ?_⟩
  · have hIndex : (UInt16.ofNat k).toNat = k := by
      rw [UInt16.toNat_ofNat']
      omega
    simp only [UInt16.toNat_add, UInt16.toNat_mul, hIndex]
    show (0x200 + 2 * k % 65536) % 65536 = _
    omega
  · rw [hThere]
    rfl

/-- The listing of a memory consists of the words from the start of a program on whose
bytes both lie in front of the end, each at its address and with what it decodes to. It
is cut behind the first five zero words in a row, if there are any, and the zero words
at its end are taken away. So it does not end in a zero word and has no five of them in
a row, it leaves out nothing in between, and every word that is not zero and that the
first such run does not precede is listed. -/
theorem listMemory_shows_program (memory : List UInt8) :
    (∀ k word, (programWords memory)[k]? = some word ↔
      0x200 + 2 * k + 1 < min memory.length 4096 ∧ ∃ high low,
        memory[0x200 + 2 * k]? = some high ∧ memory[0x200 + 2 * k + 1]? = some low ∧
          joinBytes high low = word) ∧
    Shows (programWords memory) ((listMemory memory).map (·.word)) ∧
    (∀ k line, (listMemory memory)[k]? = some line →
      line.address.toNat = 0x200 + 2 * k ∧ (programWords memory)[k]? = some line.word ∧
        line.instruction? = (programWords memory)[k]?.bind Instruction.decode?) ∧
    (listMemory memory).map (·.word) <+: programWords memory ∧
    (∀ line, (listMemory memory).getLast? = some line → line.word ≠ 0) ∧
    ¬ List.replicate 5 0 <:+: (listMemory memory).map (·.word) ∧
    ∀ k word, (programWords memory)[k]? = some word → word ≠ 0 →
      (∀ j ≤ k, ¬ List.replicate 5 0 <:+ (programWords memory).take j) →
        ∃ line, (listMemory memory)[k]? = some line ∧ line.word = word := by
  have hShows : Shows (programWords memory) ((listMemory memory).map (·.word)) := by
    rcases exists_shows_listMemory memory with ⟨listed, hShows, hListing⟩
    rwa [hListing, map_word_lines]
  refine ⟨fun k word => getElem?_programWords_iff, hShows, fun k line => of_getElem?_listMemory,
    hShows.isPrefix, fun line hLast => ?_, hShows.not_infix, fun k word hWord hNonzero hEarly => ?_⟩
  · refine hShows.ne_zero_of_getLast? ?_
    rw [List.getLast?_map, hLast]
    rfl
  · have hThere := hShows.getElem?_of_ne_zero hWord hNonzero hEarly
    rw [List.getElem?_map, Option.map_eq_some_iff] at hThere
    exact hThere

/-- A memory with two instructions and two zero words between them. -/
def withGap : List UInt8 := List.replicate 512 0 ++ [0x00, 0xE0, 0, 0, 0, 0, 0x00, 0xEE]

theorem listMemory_shows_program_with_gap :
    (programWords withGap)[3]? = some 0x00EE ∧ (0x00EE : UInt16) ≠ 0 ∧
      ∃ line, (listMemory withGap)[3]? = some line ∧ line.word = 0x00EE ∧
        line.address.toNat = 0x206 := by
  rcases listMemory_shows_program withGap with ⟨hWords, -, hLines, -, -, -, hKept⟩
  have hWord : (programWords withGap)[3]? = some 0x00EE :=
    (hWords 3 0x00EE).2 ⟨by decide +kernel, 0x00, 0xEE, by decide +kernel, by decide +kernel, rfl⟩
  rcases hKept 3 0x00EE hWord (by decide) (by decide +kernel) with ⟨line, hLine, hShown⟩
  exact ⟨hWord, by decide, line, hLine, hShown, (hLines 3 line hLine).1⟩

end Chip8.Listing

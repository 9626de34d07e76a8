import Chip8.Isa.Instruction
import Chip8.Isa.Word

/-!
# Listings

A listing shows words of memory with their addresses and, where they decode, as
instructions. Program and data cannot be told apart, so that a listing of memory goes by
zeros: it is broken off behind the first five zero words in a row, and the zero words at
its end are taken away again, while shorter runs of zeros inside it stay. For this it is
enough to count, while listing, how many zero words have just been listed.

An image is listed whole, or not at all if there are more words than addresses for them.
The addresses of a window start again from zero behind the last one.

## Main definitions

* `Line` — a word with its address; `Line.text`.
* `wordAt?` — the word at an address of a memory.
* `listMemory`, `listImage?`, `listWindow` — the listings of a memory from the start of
  a program, of an image, and of a number of words at any address.
* `listFrom`, `windowFrom` — the loops of the first and the last of these.

## Main results

* `listImage?_of_length_le` — an image that fits into memory is listed.
-/

namespace Chip8

namespace Listing

/-- A word with its address. -/
structure Line where
  address : UInt16
  word : UInt16
  deriving DecidableEq, Repr

/-- The instruction that the word of a line stands for. -/
def Line.instruction? (l : Line) : Option Instruction :=
  Instruction.decode? l.word

/-- A line as it is shown. -/
def Line.text (l : Line) : String :=
  let shown :=
    match l.instruction? with
    | some i => i.text
    | none => "??? (0x" ++ Text.hex 4 l.word.toNat ++ ")"
  "0x" ++ Text.hex 4 l.address.toNat ++ "  " ++ shown

/-- Words as lines, from `address` on. -/
def lines (address : UInt16) (words : List UInt16) : List Line :=
  (addressed address words).map fun (a, w) => ⟨a, w⟩

theorem lines_cons (address word : UInt16) (words : List UInt16) :
    lines address (word :: words) = ⟨address, word⟩ :: lines (address + 2) words := rfl

@[simp] theorem length_lines (address : UInt16) (words : List UInt16) :
    (lines address words).length = words.length := by
  simp [lines]

/-- The `k`-th line shows the `k`-th word, `2 * k` bytes behind the first. -/
theorem getElem?_lines (address : UInt16) (words : List UInt16) (k : Nat) :
    (lines address words)[k]? = words[k]?.map fun w => ⟨address + 2 * UInt16.ofNat k, w⟩ := by
  simp [lines, getElem?_addressed, Function.comp_def]

theorem take_lines (address : UInt16) (words : List UInt16) (n : Nat) :
    (lines address words).take n = lines address (words.take n) := by
  refine List.ext_getElem? fun k => ?_
  rw [List.getElem?_take, getElem?_lines, getElem?_lines, List.getElem?_take]
  split <;> rfl

theorem map_lines (address : UInt16) (words : List UInt16) :
    (lines address words).map (fun line => (line.address, line.word)) =
      addressed address words := by
  simp [lines, Function.comp_def]

@[simp] theorem map_word_lines (address : UInt16) (words : List UInt16) :
    (lines address words).map (·.word) = words := by
  induction words generalizing address with
  | nil => rfl
  | cons word words ih => rw [lines_cons, List.map_cons, ih]

/-- The word at an address of a memory, if both its bytes are there. -/
def wordAt? (memory : List UInt8) (address : Nat) : Option UInt16 := do
  let high ← memory[address]?
  let low ← memory[address + 1]?
  return joinBytes high low

theorem wordAt?_eq_some_iff {memory : List UInt8} {address : Nat} {word : UInt16} :
    wordAt? memory address = some word ↔
      ∃ high low, memory[address]? = some high ∧ memory[address + 1]? = some low ∧
        joinBytes high low = word := by
  simp [wordAt?, Option.bind_eq_some_iff]

/-- Both bytes of a word are there. -/
theorem lt_of_wordAt?_eq_some {memory : List UInt8} {address : Nat} {word : UInt16}
    (h : wordAt? memory address = some word) : address + 1 < memory.length := by
  obtain ⟨high, low, -, hSecond, -⟩ := wordAt?_eq_some_iff.1 h
  exact (List.getElem?_eq_some_iff.1 hSecond).1

/-- The number of zero words in a row that end a listing. -/
def zeroRun : Nat := 5

/-- The number of zero words at the end of a listing that has got one more word. -/
def zerosWith (zeros : Nat) (word : UInt16) : Nat := if word = 0 then zeros + 1 else 0

/-- The lines of a memory from an address on, through the first run of zeros that is
long enough, and the number of zero words at their end. The run may have begun with the
`zeros` words in front. -/
def listFrom (memory : List UInt8) (address zeros : Nat) : List Line × Nat :=
  match _there : wordAt? memory address with
  | none => ([], zeros)
  | some word =>
    let line : Line := ⟨UInt16.ofNat address, word⟩
    let zeros := zerosWith zeros word
    if zeros = zeroRun then ([line], zeros)
    else
      let (rest, zeros) := listFrom memory (address + 2) zeros
      (line :: rest, zeros)
termination_by memory.length - address
decreasing_by
  have := lt_of_wordAt?_eq_some _there
  omega

/-- The listing of a memory from the start of a program. -/
def listMemory (memory : List UInt8) : List Line :=
  let (listed, zeros) := listFrom (memory.take memorySize) programStart 0
  listed.take (listed.length - zeros)

/-- The listing of an image, if there is an address for each of its words; a last byte
without a partner is left out. -/
def listImage? (image : List UInt8) : Option (List Line) :=
  let words := wordsOf image
  if programStart + 2 * words.length ≤ addressCount then
    some (lines (UInt16.ofNat programStart) words)
  else none

/-- An image that fits into memory is listed. -/
theorem listImage?_of_length_le {image : List UInt8} (hFits : image.length ≤ programCapacity) :
    listImage? image = some (lines (UInt16.ofNat programStart) (wordsOf image)) := by
  have hStart : programStart = 512 := rfl
  have hCapacity : programCapacity = 3584 := rfl
  have hCount : addressCount = 65536 := rfl
  have hAddressable : programStart + 2 * (wordsOf image).length ≤ addressCount := by
    rw [length_wordsOf]
    omega
  simp only [listImage?, hAddressable, if_true]

/-- The lines of up to `count` words of a memory from an address on, as far as there are
words. -/
def windowFrom (memory : List UInt8) (address : Nat) : Nat → List Line
  | 0 => []
  | count + 1 =>
    match wordAt? memory address with
    | none => []
    | some word => ⟨UInt16.ofNat address, word⟩ :: windowFrom memory (address + 2) count

/-- The listing of up to `count` words at an address of a memory. -/
def listWindow (memory : List UInt8) (address : UInt16) (count : Nat) : List Line :=
  windowFrom memory address.toNat count

end Listing

end Chip8

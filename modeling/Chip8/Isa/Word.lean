/-!
# Words and bytes

An instruction is a word of two bytes, and memory holds bytes. A word is laid out with
its high byte first, and words that follow each other lie at addresses two bytes apart.

A row of bytes of odd length has a last byte without a partner. Whoever reads it as
words either drops that byte or takes it for the high byte of a word with low byte zero.

## Main definitions

* `joinBytes`, `highByte`, `lowByte`, `wordBytes` — one word.
* `wordsOf`, `paddedWordsOf` — a row of bytes as words.
* `addressed` — things with addresses two bytes apart.

## Main results

* `wordsOf_flatMap_wordBytes` — words that were laid out are read back.
* `getElem?_wordsOf` — a word of a row is made of the two bytes at its place.
* `wordsOf_append_replicate_zero` — a row of bytes with zeros behind it, as in memory.
* `getElem?_addressed` — addresses grow by two, modulo `2^16`.
-/

namespace Chip8

/-! ## One word -/

/-- The word of two bytes. -/
def joinBytes (high low : UInt8) : UInt16 := UInt16.ofNat (high.toNat * 256 + low.toNat)

/-- The high byte of a word. -/
def highByte (word : UInt16) : UInt8 := UInt8.ofNat (word.toNat / 256)

/-- The low byte of a word. -/
def lowByte (word : UInt16) : UInt8 := UInt8.ofNat (word.toNat % 256)

/-- A word as bytes, the high byte first. -/
def wordBytes (word : UInt16) : List UInt8 := [highByte word, lowByte word]

theorem toNat_joinBytes (high low : UInt8) :
    (joinBytes high low).toNat = high.toNat * 256 + low.toNat := by
  have := high.toNat_lt
  have := low.toNat_lt
  rw [joinBytes, UInt16.toNat_ofNat']
  omega

private theorem toNat_highByte (word : UInt16) : (highByte word).toNat = word.toNat / 256 := by
  have := word.toNat_lt
  rw [highByte, UInt8.toNat_ofNat']
  omega

theorem toNat_lowByte (word : UInt16) : (lowByte word).toNat = word.toNat % 256 := by
  rw [lowByte, UInt8.toNat_ofNat']
  omega

@[simp] theorem joinBytes_highByte_lowByte (word : UInt16) :
    joinBytes (highByte word) (lowByte word) = word := by
  apply UInt16.toNat_inj.1
  rw [toNat_joinBytes, toNat_highByte, toNat_lowByte]
  omega

@[simp] theorem highByte_joinBytes (high low : UInt8) : highByte (joinBytes high low) = high := by
  have := low.toNat_lt
  apply UInt8.toNat_inj.1
  rw [toNat_highByte, toNat_joinBytes]
  omega

@[simp] theorem lowByte_joinBytes (high low : UInt8) : lowByte (joinBytes high low) = low := by
  have := low.toNat_lt
  apply UInt8.toNat_inj.1
  rw [toNat_lowByte, toNat_joinBytes]
  omega

/-! ## Rows of words -/

/-- Pairs of bytes as words; a last byte without a partner is dropped. -/
def wordsOf : List UInt8 → List UInt16
  | high :: low :: rest => joinBytes high low :: wordsOf rest
  | _ => []

/-- Pairs of bytes as words; a last byte without a partner is the high byte of a
word. -/
def paddedWordsOf : List UInt8 → List UInt16
  | high :: low :: rest => joinBytes high low :: paddedWordsOf rest
  | [high] => [joinBytes high 0]
  | [] => []

/-- Things with addresses two bytes apart, from `address` on. -/
def addressed {α : Type} (address : UInt16) : List α → List (UInt16 × α)
  | [] => []
  | x :: xs => (address, x) :: addressed (address + 2) xs

/-- Words that were laid out are read back. -/
theorem wordsOf_flatMap_wordBytes (words : List UInt16) :
    wordsOf (words.flatMap wordBytes) = words := by
  induction words with
  | nil => rfl
  | cons word words ih => simp [wordBytes, wordsOf, ih]

theorem length_wordsOf (bytes : List UInt8) : (wordsOf bytes).length = bytes.length / 2 := by
  fun_induction wordsOf bytes with
  | case1 high low rest ih =>
    simp only [List.length_cons, ih]
    omega
  | case2 bytes hShort =>
    match bytes with
    | [] => rfl
    | [_] => simp
    | high :: low :: rest => exact absurd rfl (hShort high low rest)

/-- The `k`-th word is made of the two bytes at place `2 * k`. -/
theorem getElem?_wordsOf (bytes : List UInt8) (k : Nat) :
    (wordsOf bytes)[k]? =
      bytes[2 * k]?.bind fun high => bytes[2 * k + 1]?.map fun low => joinBytes high low := by
  fun_induction wordsOf bytes generalizing k with
  | case1 high low rest ih =>
    cases k with
    | zero => rfl
    | succ k => simpa [Nat.mul_add] using ih k
  | case2 bytes hShort =>
    match bytes with
    | [] => simp
    | [_] => cases k <;> simp
    | high :: low :: rest => exact absurd rfl (hShort high low rest)

theorem length_paddedWordsOf (bytes : List UInt8) :
    (paddedWordsOf bytes).length = (bytes.length + 1) / 2 := by
  fun_induction paddedWordsOf bytes with
  | case1 high low rest ih =>
    simp only [List.length_cons, ih]
    omega
  | case2 high => simp
  | case3 => rfl

/-- The words whose bytes are both there come first. -/
theorem take_paddedWordsOf (bytes : List UInt8) :
    (paddedWordsOf bytes).take (bytes.length / 2) = wordsOf bytes := by
  fun_induction paddedWordsOf bytes with
  | case1 high low rest ih =>
    have hHalf : (rest.length + 1 + 1) / 2 = rest.length / 2 + 1 := by omega
    simp only [List.length_cons, hHalf, List.take_succ_cons, ih, wordsOf]
  | case2 high => simp [wordsOf]
  | case3 => rfl

private theorem wordsOf_replicate_zero (n : Nat) :
    wordsOf (List.replicate n 0) = List.replicate (n / 2) 0 := by
  refine List.eq_replicate_iff.2 ⟨by rw [length_wordsOf, List.length_replicate], ?_⟩
  intro word hMem
  obtain ⟨k, hk⟩ := List.mem_iff_getElem?.1 hMem
  simp only [getElem?_wordsOf, List.getElem?_replicate] at hk
  split at hk
  · split at hk
    · exact (Option.some.inj hk).symm
    · exact absurd hk (by simp)
  · exact absurd hk (by simp)

/-- Zeros behind a row complete its last word, and those that are left are words
themselves. -/
theorem wordsOf_append_replicate_zero {bytes : List UInt8} {n : Nat}
    (hEven : (bytes.length + n) % 2 = 0) :
    wordsOf (bytes ++ List.replicate n 0) = paddedWordsOf bytes ++ List.replicate (n / 2) 0 := by
  fun_induction paddedWordsOf bytes with
  | case1 high low rest ih =>
    have hParity : (rest.length + n) % 2 = 0 := by
      simp only [List.length_cons] at hEven
      omega
    simp only [List.cons_append, wordsOf, ih hParity]
  | case2 high =>
    cases n with
    | zero => simp at hEven
    | succ n =>
      have hHalf : (n + 1) / 2 = n / 2 := by
        simp only [List.length_singleton] at hEven
        omega
      rw [List.replicate_succ, hHalf, ← wordsOf_replicate_zero]
      rfl
  | case3 => exact wordsOf_replicate_zero n

@[simp] theorem length_addressed {α : Type} (address : UInt16) (xs : List α) :
    (addressed address xs).length = xs.length := by
  induction xs generalizing address with
  | nil => rfl
  | cons x xs ih => simp [addressed, ih]

/-- The `k`-th thing has the address `2 * k` behind the first, modulo `2^16`. -/
theorem getElem?_addressed {α : Type} (address : UInt16) (xs : List α) (k : Nat) :
    (addressed address xs)[k]? = xs[k]?.map fun x => (address + 2 * UInt16.ofNat k, x) := by
  induction xs generalizing address k with
  | nil => simp [addressed]
  | cons x xs ih =>
    cases k with
    | zero => simp [addressed]
    | succ k =>
      have hLater : address + 2 + 2 * UInt16.ofNat k = address + 2 * UInt16.ofNat (k + 1) := by
        rw [UInt16.ofNat_add]
        grind
      simp [addressed, ih, hLater]

end Chip8

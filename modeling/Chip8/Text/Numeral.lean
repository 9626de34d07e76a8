/-!
# Numerals

Writing numbers as digits, and reading digits as 16-bit words.

Written numerals use capital letters for the digits above nine. Reading goes from the
left and stops at the first fault: a character that is no digit of the radix makes the
text malformed, and a digit that would carry the value past `65535` makes it overflow. A
text with both faults is therefore reported by the one that a reader meets first. One
leading plus sign is accepted in front of at least one digit; a minus sign never is.

## Main definitions

* `numeral`, `decimal`, `hex` — writing.
* `digit?`, `accumulate`, `readWord` — reading.

## Main results

* `readWord_numeral`, `readWord_hex` — a number below `2^16` that was written is read
  back.
* `accumulate_append` — digits are read one after the other, and the first fault ends
  it.
-/

namespace Chip8.Text

/-! ## Writing -/

/-- The digits of `n` in `base`, most significant first, without leading zeros. -/
def numeral (base n : Nat) : List Char := (Nat.toDigits base n).map Char.toUpper

/-- `n` in base ten. -/
def decimal (n : Nat) : String := String.ofList (numeral 10 n)

/-- `n` in base sixteen, with zeros in front up to `width` digits. -/
def hex (width n : Nat) : String :=
  let digits := numeral 16 n
  String.ofList (List.replicate (width - digits.length) '0' ++ digits)

/-! ## Reading -/

/-- The value of a character as a digit of `radix`: `0`-`9`, then letters of either
case. -/
def digit? (radix : Nat) (c : Char) : Option Nat :=
  let code := c.toNat
  let value :=
    if '0'.toNat ≤ code ∧ code ≤ '9'.toNat then code - '0'.toNat
    else if 'a'.toNat ≤ code ∧ code ≤ 'z'.toNat then code - 'a'.toNat + 10
    else if 'A'.toNat ≤ code ∧ code ≤ 'Z'.toNat then code - 'A'.toNat + 10
    else radix
  if value < radix then some value else none

/-- Why a text is not read as a 16-bit word. -/
inductive NumeralFault where
  /-- There is no digit, or a character that is not a digit of the radix. -/
  | malformed
  /-- The digits read so far denote more than `65535`. -/
  | overflow
  deriving DecidableEq, Repr

/-- Reads digits behind a prefix that denotes `value`. -/
def accumulate (radix : Nat) : Nat → List Char → Except NumeralFault Nat
  | value, [] => .ok value
  | value, c :: cs =>
    match digit? radix c with
    | none => .error .malformed
    | some d =>
      if value * radix + d < 65536 then accumulate radix (value * radix + d) cs
      else .error .overflow

/-- Reads a whole text as a 16-bit word. -/
def readWord (radix : Nat) : List Char → Except NumeralFault UInt16
  | [] => .error .malformed
  | c :: cs =>
    if c = '+' ∧ cs ≠ [] then (accumulate radix 0 cs).map UInt16.ofNat
    else (accumulate radix 0 (c :: cs)).map UInt16.ofNat

/-! ## Written numerals are read back -/

/-- A written digit has its value in every radix that has the digit. -/
theorem digit?_toUpper_digitChar {radix d : Nat} (hLt : d < radix) (hLe : radix ≤ 16) :
    digit? radix (Nat.digitChar d).toUpper = some d := by
  have hTable : ∀ r : Fin 17, ∀ d : Fin 16, d.val < r.val →
      digit? r.val (Nat.digitChar d.val).toUpper = some d.val := by decide
  exact hTable ⟨radix, by omega⟩ ⟨d, by omega⟩ hLt

/-- Digits are read one after the other; the first fault ends the reading. -/
theorem accumulate_append (radix value : Nat) (as bs : List Char) :
    accumulate radix value (as ++ bs) =
      match accumulate radix value as with
      | .ok v => accumulate radix v bs
      | .error fault => .error fault := by
  induction as generalizing value with
  | nil => rfl
  | cons a as ih =>
    simp only [List.cons_append, accumulate]
    split
    · rfl
    · split
      · exact ih _
      · rfl

/-- Zeros in front do not count. -/
theorem accumulate_replicate_zero {radix : Nat} (hPos : 0 < radix) (hLe : radix ≤ 16) (count : Nat)
    (cs : List Char) :
    accumulate radix 0 (List.replicate count '0' ++ cs) = accumulate radix 0 cs := by
  induction count with
  | zero => rfl
  | succ count ih =>
    have hZero : digit? radix '0' = some 0 := digit?_toUpper_digitChar hPos hLe
    simpa [List.replicate_succ, accumulate, hZero] using ih

theorem numeral_ne_nil (base n : Nat) : numeral base n ≠ [] := by
  simp [numeral, Nat.toDigits_ne_nil]

/-- The digits of a number below `2^16` denote it. -/
theorem accumulate_numeral {radix n : Nat} (hLt : 1 < radix) (hLe : radix ≤ 16)
    (hSmall : n < 65536) :
    accumulate radix 0 (numeral radix n) = .ok n := by
  induction n using Nat.strongRecOn with
  | ind n ih =>
    by_cases hSingle : n < radix
    · simp [numeral, Nat.toDigits_of_lt_base hSingle, accumulate,
        digit?_toUpper_digitChar hSingle hLe, hSmall]
    · have hSmaller : n / radix < n := Nat.div_lt_self (by omega) hLt
      have hFront := ih (n / radix) hSmaller (by omega)
      have hLast : n % radix < radix := Nat.mod_lt _ (by omega)
      have hWhole : n / radix * radix + n % radix = n := Nat.div_add_mod' n radix
      unfold numeral at hFront ⊢
      rw [Nat.toDigits_of_base_le hLt (by omega), List.map_append, accumulate_append, hFront]
      simp [accumulate, digit?_toUpper_digitChar hLast hLe, hWhole, hSmall]

/-- No digit is a sign. -/
theorem readWord_of_digit {radix : Nat} {c : Char} {cs : List Char}
    (hDigit : (digit? radix c).isSome) :
    readWord radix (c :: cs) = (accumulate radix 0 (c :: cs)).map UInt16.ofNat := by
  have : c ≠ '+' := by
    rintro rfl
    simp [digit?] at hDigit
  simp [readWord, this]

/-- A number below `2^16` that was written is read back, whatever zeros stand in
front. -/
theorem readWord_replicate_zero_numeral {radix n : Nat} (hLt : 1 < radix) (hLe : radix ≤ 16)
    (hSmall : n < 65536) (count : Nat) :
    readWord radix (List.replicate count '0' ++ numeral radix n) = .ok (UInt16.ofNat n) := by
  have hDenoted : accumulate radix 0 (List.replicate count '0' ++ numeral radix n) = .ok n := by
    rw [accumulate_replicate_zero (by omega) hLe, accumulate_numeral hLt hLe hSmall]
  match hText : List.replicate count '0' ++ numeral radix n with
  | [] => simp [numeral_ne_nil] at hText
  | c :: cs =>
    rw [hText] at hDenoted
    have hDigit : (digit? radix c).isSome := by
      unfold accumulate at hDenoted
      split at hDenoted
      · simp at hDenoted
      · rename_i d eq
        simp [eq]
    rw [readWord_of_digit hDigit, hDenoted]
    rfl

theorem readWord_numeral {radix n : Nat} (hLt : 1 < radix) (hLe : radix ≤ 16) (hSmall : n < 65536) :
    readWord radix (numeral radix n) = .ok (UInt16.ofNat n) :=
  readWord_replicate_zero_numeral hLt hLe hSmall 0

@[simp] theorem readWord_decimal (word : UInt16) :
    readWord 10 (decimal word.toNat).toList = .ok word := by
  simp [decimal, readWord_numeral, word.toNat_lt]

@[simp] theorem readWord_hex (width : Nat) (word : UInt16) :
    readWord 16 (hex width word.toNat).toList = .ok word := by
  simp [hex, readWord_replicate_zero_numeral, word.toNat_lt]

end Chip8.Text

import Chip8.Isa.Word
import Chip8.Proofs.Asm.Literal

/-!
# Columns of hexadecimal digits

A number below `16 ^ width` is written in exactly `width` digits, and a wider column is
a narrower one with one more digit. So the columns of the two bytes of a word, one
behind the other, are the column of the word.

## Main definitions

* `hexDigit` — a digit as it is written.

## Main results

* `length_hex` — the width of a column.
* `toList_hex_joinBytes` — the column of a word.
* `toNat_of_digit?`, `digit?_of_mem_hex` — the characters of a column.
-/

namespace Chip8.Text

/-- A digit of base sixteen as it is written. -/
def hexDigit (d : Nat) : Char := (Nat.digitChar d).toUpper

/-! ## Wider columns -/

theorem toList_hex (width n : Nat) : (hex width n).toList =
    List.replicate (width - (numeral 16 n).length) '0' ++ numeral 16 n := by
  rw [hex, String.toList_ofList]

/-- A column with one more digit. -/
theorem toList_hex_succ {width : Nat} (hWidth : 0 < width) (n : Nat) :
    (hex (width + 1) n).toList = (hex width (n / 16)).toList ++ [hexDigit (n % 16)] := by
  rw [toList_hex, toList_hex]
  by_cases hSmall : n < 16
  · have hZero : n / 16 = 0 := Nat.div_eq_of_lt hSmall
    have hLast : numeral 16 n = [hexDigit (n % 16)] := by
      rw [numeral, Nat.toDigits_of_lt_base hSmall, Nat.mod_eq_of_lt hSmall]
      rfl
    have hLeading : numeral 16 0 = ['0'] := rfl
    obtain ⟨k, rfl⟩ : ∃ k, width = k + 1 := ⟨width - 1, by omega⟩
    rw [hLast, hZero, hLeading]
    show List.replicate (k + 1 + 1 - 1) '0' ++ [hexDigit (n % 16)] =
      List.replicate (k + 1 - 1) '0' ++ ['0'] ++ [hexDigit (n % 16)]
    rw [Nat.add_sub_cancel, Nat.add_sub_cancel, List.replicate_succ']
  · have hSplit : numeral 16 n = numeral 16 (n / 16) ++ [hexDigit (n % 16)] := by
      rw [numeral, Nat.toDigits_of_base_le (by omega) (by omega), List.map_append]
      rfl
    rw [hSplit, List.length_append, List.length_singleton, Nat.add_sub_add_right,
      List.append_assoc]

/-- A number that needs no more digits than the column has fills the column. -/
theorem length_hex {width n : Nat} (hWidth : 0 < width) (hn : n < 16 ^ width) :
    (hex width n).toList.length = width := by
  have hDigits : (numeral 16 n).length ≤ width := by
    rw [numeral, List.length_map]
    exact (Nat.length_toDigits_le_iff (by omega) hWidth).2 hn
  rw [toList_hex, List.length_append, List.length_replicate]
  omega

/-- The column of a byte. -/
theorem toList_hex_two {n : Nat} (hn : n < 256) :
    (hex 2 n).toList = [hexDigit (n / 16), hexDigit (n % 16)] := by
  have hFirst : (hex 1 (n / 16)).toList = [hexDigit (n / 16)] := by
    have hDigit : n / 16 < 16 := by omega
    rw [toList_hex, numeral, Nat.toDigits_of_lt_base hDigit]
    rfl
  rw [toList_hex_succ Nat.one_pos, hFirst]
  rfl

/-- The columns of two bytes make up the column of their word. -/
theorem toList_hex_joinBytes (high low : UInt8) : (hex 4 (joinBytes high low).toNat).toList =
    (hex 2 high.toNat).toList ++ (hex 2 low.toNat).toList := by
  have hByte := low.toNat_lt
  have hHigh : (high.toNat * 256 + low.toNat) / 16 / 16 = high.toNat := by omega
  have hMiddle : (high.toNat * 256 + low.toNat) / 16 % 16 = low.toNat / 16 := by omega
  have hLast : (high.toNat * 256 + low.toNat) % 16 = low.toNat % 16 := by omega
  rw [toNat_joinBytes, toList_hex_succ (by omega), toList_hex_succ (by omega), hHigh, hMiddle,
    hLast, toList_hex_two hByte, List.append_assoc]
  rfl

/-! ## The characters of a column -/

theorem digit?_of_mem_hex {width n : Nat} (hn : n < 65536) :
    ∀ c ∈ (hex width n).toList, (digit? 16 c).isSome := by
  rw [toList_hex]
  exact digit?_isSome_of_numberOf? (numberOf?_numeral (by omega) (by omega) hn _)

/-- The codes of digits, by the first and the last of them. -/
theorem toNat_of_digit? {c : Char} (h : (digit? 16 c).isSome) :
    48 ≤ c.toNat ∧ c.toNat ≤ 102 := by
  by_cases hDigit : '0'.toNat ≤ c.toNat ∧ c.toNat ≤ '9'.toNat
  · simp only [Char.reduceToNat] at hDigit
    omega
  · simp only [digit?, Char.reduceToNat] at h hDigit
    split_ifs at h with hSmall hCapital <;> first | omega | simp at h

/-- Every digit takes one byte. -/
theorem byteLength_of_digit? {cs : List Char} (h : ∀ c ∈ cs, (digit? 16 c).isSome) :
    byteLength cs = cs.length := by
  induction cs with
  | nil => rfl
  | cons c cs ih =>
      have hCode := toNat_of_digit? (h c (by simp))
      have hSize : c.utf8Size = 1 := by
        rw [Char.utf8Size_eq_one_iff, UInt32.le_iff_toNat_le]
        exact Nat.le_trans hCode.2 (by decide)
      rw [byteLength_cons, hSize, ih fun d hd => h d (by simp [hd]), List.length_cons]
      omega

end Chip8.Text

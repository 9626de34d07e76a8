/-!
# Letter case and bytes

Assembly text is case-insensitive in the ASCII letters only: `foldCase` maps the
capitals `A`-`Z` to small letters and keeps every other character, so a text and its
folded form have the same length in characters and in bytes.

Bytes are those of UTF-8, as lists. Reading refuses what is not the UTF-8 form of a
text, so that reading accepts exactly what writing gives.

## Main results

* `foldCase_foldCase` — folding twice is folding once.
* `byteLength_append`, `byteLength_map_toLower` — the UTF-8 length of a text adds up
  over its pieces and is not changed by folding, which is what keeps positions in a text
  and in its folded form equal.
* `fromUtf8?_eq_some_iff` — bytes are read as a text exactly if they are its UTF-8 form.
* `toUtf8_injective` — different texts have different bytes.
-/

namespace Chip8.Text

/-! ## Letter case -/

/-- The text with `A`-`Z` replaced by `a`-`z`; every other character stays. -/
def foldCase (s : String) : String := s.map Char.toLower

/-- The text with `a`-`z` replaced by `A`-`Z`; every other character stays. -/
def raiseCase (s : String) : String := s.map Char.toUpper

@[simp] theorem toList_foldCase (s : String) :
    (foldCase s).toList = s.toList.map Char.toLower := by
  simp [foldCase, String.toList_map]

/-- A capital is moved 32 places up; its new code lies in `97`-`122`. -/
theorem toNat_toLower_of_capital {c : Char} (h : c.val ≥ 'A'.val ∧ c.val ≤ 'Z'.val) :
    (c.val + ('a'.val - 'A'.val)).toNat = c.val.toNat + 32 ∧ 65 ≤ c.val.toNat ∧
      c.val.toNat ≤ 90 := by
  have hLo := UInt32.le_iff_toNat_le.1 h.1
  have hi := UInt32.le_iff_toNat_le.1 h.2
  have : ('A'.val).toNat = 65 := rfl
  have : ('Z'.val).toNat = 90 := rfl
  have : ('a'.val - 'A'.val).toNat = 32 := rfl
  rw [UInt32.toNat_add]
  omega

-- The core library, which is all that is at hand here, has no lemma for this.
private theorem toLower_toLower (c : Char) : c.toLower.toLower = c.toLower := by
  unfold Char.toLower
  split
  · rename_i h
    obtain ⟨hv, hLo, hi⟩ := toNat_toLower_of_capital h
    split
    · rename_i h'
      have hi' := UInt32.le_iff_toNat_le.1 h'.2
      have : ('Z'.val).toNat = 90 := rfl
      simp only at hi'
      omega
    · rfl
  · rfl

/-- Both letter cases take one byte, so folding keeps the length of a character. -/
@[simp] theorem utf8Size_toLower (c : Char) : c.toLower.utf8Size = c.utf8Size := by
  unfold Char.toLower
  split
  · rename_i h
    obtain ⟨hv, hLo, hi⟩ := toNat_toLower_of_capital h
    have h127 : (127 : UInt32).toNat = 127 := rfl
    have hRaised : (c.val + ('a'.val - 'A'.val)).toNat ≤ (127 : UInt32).toNat := by omega
    have hHere : c.val.toNat ≤ (127 : UInt32).toNat := by omega
    rw [Char.utf8Size_eq_one_iff.2 (UInt32.le_iff_toNat_le.2 hRaised),
      Char.utf8Size_eq_one_iff.2 (UInt32.le_iff_toNat_le.2 hHere)]
  · rfl

/-- Folding is idempotent: a folded text has no capitals left. -/
@[simp] theorem foldCase_foldCase (s : String) : foldCase (foldCase s) = foldCase s := by
  apply String.toList_inj.1
  rw [toList_foldCase, toList_foldCase, List.map_map]
  exact List.map_congr_left fun c _ => toLower_toLower c

/-! ## Length in bytes -/

/-- The number of bytes that the characters take in UTF-8. -/
def byteLength : List Char → Nat
  | [] => 0
  | c :: cs => c.utf8Size + byteLength cs

@[simp] theorem byteLength_nil : byteLength [] = 0 := rfl

@[simp] theorem byteLength_cons (c : Char) (cs : List Char) :
    byteLength (c :: cs) = c.utf8Size + byteLength cs := rfl

@[simp] theorem byteLength_append (as bs : List Char) :
    byteLength (as ++ bs) = byteLength as + byteLength bs := by
  induction as with
  | nil => simp
  | cons a as ih => simp [ih, Nat.add_assoc]

@[simp] theorem byteLength_map_toLower (cs : List Char) :
    byteLength (cs.map Char.toLower) = byteLength cs := by
  induction cs with
  | nil => rfl
  | cons c cs ih => simp [ih]

/-! ## Bytes -/

/-- The UTF-8 form of a text. -/
def toUtf8 (s : String) : List UInt8 := s.toByteArray.data.toList

/-- The text whose UTF-8 form the bytes are. -/
def fromUtf8? (bytes : List UInt8) : Option String := String.fromUTF8? ⟨bytes.toArray⟩

theorem toUtf8_injective {s t : String} (h : toUtf8 s = toUtf8 t) : s = t :=
  String.toByteArray_inj.1 (ByteArray.ext (Array.toList_inj.1 h))

theorem fromUtf8?_eq_some_iff {bytes : List UInt8} {s : String} :
    fromUtf8? bytes = some s ↔ bytes = toUtf8 s := by
  unfold fromUtf8? String.fromUTF8?
  constructor
  · intro h
    split at h
    · simp only [Option.some.injEq] at h
      subst h
      simp [toUtf8, String.fromUTF8]
    · simp at h
  · rintro rfl
    have hWhole : (⟨(toUtf8 s).toArray⟩ : ByteArray) = s.toByteArray := by
      simp [toUtf8]
    simp only [hWhole]
    rw [dif_pos s.isValidUTF8]
    exact congrArg some (String.toByteArray_inj.1 rfl)

end Chip8.Text

import Chip8.Text.Utf8

/-!
# Folding, character by character

Folding changes the 26 capitals and no other character. What does not tell a capital
from its small letter therefore does not tell a text from its folded form.

## Main definitions

* `capitals` — the characters that folding changes.

## Main results

* `toLower_eq_self_or`, `eq_of_toLower_eq` — what becomes of a character.
* `apply_toLower` — a kind of characters is looked at for the capitals only.
* `takeWhile_map_toLower` — the front of a folded text.
-/

namespace Chip8.Text

/-- Folding changes capitals only. -/
theorem toLower_eq_self_or (c : Char) :
    c.toLower = c ∨ 65 ≤ c.toNat ∧ c.toNat ≤ 90 ∧ c.toLower.toNat = c.toNat + 32 := by
  unfold Char.toLower
  split
  · rename_i hcapital
    obtain ⟨hLower, hLow, hHigh⟩ := toNat_toLower_of_capital hcapital
    exact .inr ⟨hLow, hHigh, hLower⟩
  · exact .inl rfl

/-- A character that is neither a capital nor a small letter comes from itself only. -/
theorem eq_of_toLower_eq {c d : Char} (hd : d.toNat < 97) (h : c.toLower = d) : c = d := by
  rcases toLower_eq_self_or c with hSame | ⟨hLow, hHigh, hLower⟩
  · rw [← h, hSame]
  · rw [h] at hLower
    omega

/-- The characters that folding changes. -/
def capitals : List Char := (List.range 26).map fun k => Char.ofNat (65 + k)

private theorem mem_capitals {c : Char} (hLow : 65 ≤ c.toNat) (hHigh : c.toNat ≤ 90) :
    c ∈ capitals := by
  refine List.mem_map.2 ⟨c.toNat - 65, List.mem_range.2 (by omega), ?_⟩
  rw [Nat.add_sub_cancel' hLow, Char.ofNat_toNat]

/-- A kind of characters that has each letter in both cases or in none has each
character with its folded form or without it. -/
theorem apply_toLower {p : Char → Bool} (hCapitals : capitals.all fun c => p c.toLower == p c)
    (c : Char) : p c.toLower = p c := by
  rcases toLower_eq_self_or c with hSame | ⟨hLow, hHigh, -⟩
  · rw [hSame]
  · exact beq_iff_eq.1 (List.all_eq_true.1 hCapitals c (mem_capitals hLow hHigh))

/-- Characters of a kind that has no letter in one case only are taken off a folded text
as they are taken off the text. -/
theorem takeWhile_map_toLower {p : Char → Bool} (hKind : ∀ c : Char, p c.toLower = p c)
    (cs : List Char) : (cs.map Char.toLower).takeWhile p = (cs.takeWhile p).map Char.toLower := by
  have hSame : p ∘ Char.toLower = p := funext hKind
  rw [List.takeWhile_map, hSame]

end Chip8.Text

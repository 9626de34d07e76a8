/-!
# Cutting texts

Rows of characters or bytes are cut at a separator. The line-oriented text format also
ignores white space around a line and around the parts of a line. White space here is
the Unicode property `White_Space`, which is wider than the four characters that
separate tokens in assembly text.

## Main definitions

* `after?` — what follows a given beginning.
* `cut?` — the parts before and behind the first occurrence of a separator.
* `isBlank` — the property.
* `trim` — a text without the white space at its two ends.
* `lines` — a text split at its line feeds.

## Main results

* `after?_eq_some_iff`, `append_of_cut?` — the pieces make up the whole.
-/

namespace Chip8.Text

/-! ## Separators -/

section Separators

variable {α : Type} [DecidableEq α]

/-- What is left of a row behind `front`, if the row begins with it. -/
def after? : List α → List α → Option (List α)
  | [], cs => some cs
  | _ :: _, [] => none
  | f :: front, c :: cs => if f = c then after? front cs else none

theorem after?_eq_some_iff {front cs rest : List α} :
    after? front cs = some rest ↔ cs = front ++ rest := by
  induction front generalizing cs with
  | nil => simp [after?]
  | cons f front ih =>
    cases cs with
    | nil => simp [after?]
    | cons c cs => by_cases h : f = c <;> simp [after?, h, ih, eq_comm]

/-- The parts of a row before and behind the first occurrence of `separator`. -/
def cut? (separator : List α) : List α → Option (List α × List α)
  | [] => (after? separator []).map ([], ·)
  | c :: cs =>
    match after? separator (c :: cs) with
    | some behind => some ([], behind)
    | none => (cut? separator cs).map fun (before, behind) => (c :: before, behind)

/-- What a successful cut gives is the row itself, with the separator between the
parts. -/
theorem append_of_cut? {separator cs before behind : List α}
    (h : cut? separator cs = some (before, behind)) : cs = before ++ separator ++ behind := by
  induction cs generalizing before with
  | nil =>
    obtain ⟨rest, hStarts, hEq⟩ := Option.map_eq_some_iff.1 h
    obtain ⟨rfl, rfl⟩ : [] = before ∧ rest = behind := by simpa using hEq
    simpa using after?_eq_some_iff.1 hStarts
  | cons c cs ih =>
    unfold cut? at h
    split at h
    · rename_i hStarts
      obtain ⟨rfl, rfl⟩ : [] = before ∧ _ = behind := by simpa using h
      simpa using after?_eq_some_iff.1 hStarts
    · obtain ⟨⟨before', behind'⟩, hFound, hEq⟩ := Option.map_eq_some_iff.1 h
      obtain ⟨rfl, rfl⟩ : c :: before' = before ∧ behind' = behind := by simpa using hEq
      simp [ih hFound]

end Separators

/-! ## White space and lines -/

/-- The property `White_Space`. -/
def isBlank (c : Char) : Bool :=
  let code := c.toNat
  (0x09 ≤ code && code ≤ 0x0D) || code == 0x20 || code == 0x85 || code == 0xA0 ||
    code == 0x1680 || (0x2000 ≤ code && code ≤ 0x200A) || code == 0x2028 || code == 0x2029 ||
    code == 0x202F || code == 0x205F || code == 0x3000

/-- The text without white space at its ends. -/
def trim (cs : List Char) : List Char :=
  ((cs.dropWhile isBlank).reverse.dropWhile isBlank).reverse

/-- The lines of a text, without their line feeds. -/
def lines : List Char → List (List Char)
  | [] => [[]]
  | c :: cs =>
    if c = '\n' then [] :: lines cs
    else
      match lines cs with
      | [] => [[c]]
      | line :: rest => (c :: line) :: rest

end Chip8.Text

import Chip8.Proofs.Text.Folding
import Chip8.Text.Cut

/-!
# Cutting, trimming and splitting into lines

What the line-oriented text form does to characters, as facts about the three functions
that do it. A cut is made at the first place where the separator stands, so that what
stands in front of it never contains the separator, and characters in front that cannot
begin the separator are passed over. Trimming takes nothing but white space, and nothing
if there is none at the ends. Lines that were written one below the other are the lines
of the text.

## Main results

* `cut?_eq_none_iff`, `not_infix_of_cut?`, `cut?_append_of_notMem` — where a row is cut.
* `trim_infix`, `trim_trim`, `trim_eq_self`, `trim_append_blank` — what is trimmed.
* `exists_eq_trim_append`, `exists_eq_append_trim` — what trimming one end leaves.
* `lines_flatMap_newline`, `newline_notMem_of_mem_lines` — lines.
-/

namespace Chip8.Text

/-! ## Cutting -/

section Cut

variable {α : Type} [DecidableEq α]

theorem after?_eq_none_iff {front cs : List α} : after? front cs = none ↔ ¬ front <+: cs := by
  rw [Option.eq_none_iff_forall_ne_some]
  constructor
  · rintro hNone ⟨rest, rfl⟩
    exact hNone rest (after?_eq_some_iff.2 rfl)
  · intro hBegins rest hRest
    exact hBegins ⟨rest, (after?_eq_some_iff.1 hRest).symm⟩

/-- A row is cut unless the separator stands nowhere in it. -/
theorem cut?_eq_none_iff {separator cs : List α} :
    cut? separator cs = none ↔ ¬ separator <:+: cs := by
  induction cs with
  | nil =>
      rw [cut?, Option.map_eq_none_iff, after?_eq_none_iff, List.prefix_nil, List.infix_nil]
  | cons c cs ih =>
      rw [List.infix_cons_iff, not_or, ← after?_eq_none_iff, ← ih, cut?]
      split
      · rename_i hStart
        simp [hStart]
      · rename_i hStart
        simp [hStart]

/-- The separator does not stand in front of the place where a row is cut. -/
theorem not_infix_of_cut? {separator cs before behind : List α} (hSep : separator ≠ [])
    (h : cut? separator cs = some (before, behind)) : ¬ separator <:+: before := by
  induction cs generalizing before with
  | nil =>
      obtain ⟨rest, hRest, -⟩ := Option.map_eq_some_iff.1 h
      have hWhole := after?_eq_some_iff.1 hRest
      exact absurd (List.append_eq_nil_iff.1 hWhole.symm).1 hSep
  | cons c cs ih =>
      rw [cut?] at h
      split at h
      · obtain ⟨rfl, -⟩ := Prod.mk.inj (Option.some.inj h)
        rwa [List.infix_nil]
      · rename_i hStart
        obtain ⟨⟨before', behind'⟩, hCut, hEq⟩ := Option.map_eq_some_iff.1 h
        obtain ⟨rfl, rfl⟩ := Prod.mk.inj hEq
        -- a separator at the front of what was passed over would have been found there
        have hFront : ¬ separator <+: c :: before' := by
          rw [after?_eq_none_iff, append_of_cut? hCut, List.append_assoc,
            ← List.cons_append] at hStart
          exact fun hBegins => hStart (hBegins.trans (List.prefix_append _ _))
        rw [List.infix_cons_iff, not_or]
        exact ⟨hFront, ih hCut⟩

/-- Things that do not begin the separator are passed over. -/
theorem cut?_append_of_notMem {s : α} {separator front : List α} (hs : s ∉ front)
    (cs : List α) : cut? (s :: separator) (front ++ cs) =
      (cut? (s :: separator) cs).map fun p => (front ++ p.1, p.2) := by
  induction front with
  | nil => simp
  | cons c front ih =>
      have hHead : s ≠ c := fun hEq => hs (by simp [hEq])
      have hTail : s ∉ front := fun hMem => hs (by simp [hMem])
      have hStart : after? (s :: separator) (c :: (front ++ cs)) = none := if_neg hHead
      rw [List.cons_append, cut?, hStart, ih hTail]
      cases cut? (s :: separator) cs <;> rfl

/-- A row is cut at the first place of a single thing. -/
theorem cut?_singleton {s : α} {front : List α} (hs : s ∉ front) (behind : List α) :
    cut? [s] (front ++ s :: behind) = some (front, behind) := by
  have hHere : cut? [s] (s :: behind) = some ([], behind) := by simp [cut?, after?]
  rw [cut?_append_of_notMem hs, hHere]
  simp

end Cut

/-! ## Trimming -/

theorem trim_prefix_dropWhile (cs : List Char) : trim cs <+: cs.dropWhile isBlank := by
  rw [← List.reverse_suffix, trim, List.reverse_reverse]
  exact List.dropWhile_suffix _

/-- Trimming takes from the ends only. -/
theorem trim_infix (cs : List Char) : trim cs <:+: cs :=
  (trim_prefix_dropWhile cs).isInfix.trans (List.dropWhile_suffix _).isInfix

/-- Nothing is dropped where the first character is not white space. -/
theorem dropWhile_isBlank_eq_self {cs : List Char} (h : ∀ c ∈ cs.head?, isBlank c = false) :
    cs.dropWhile isBlank = cs := by
  cases cs with
  | nil => rfl
  | cons c cs => rw [List.dropWhile_cons, h c rfl, if_neg Bool.false_ne_true]

private theorem isBlank_head?_dropWhile (cs : List Char) :
    ∀ c ∈ (cs.dropWhile isBlank).head?, isBlank c = false := by
  intro c hc
  have hNot := List.head?_dropWhile_not isBlank cs
  rw [Option.mem_def] at hc
  rwa [hc] at hNot

/-- A text without white space at its ends stays as it is. -/
theorem trim_eq_self {cs : List Char} (hHead : ∀ c ∈ cs.head?, isBlank c = false)
    (hLast : ∀ c ∈ cs.getLast?, isBlank c = false) : trim cs = cs := by
  rw [trim, dropWhile_isBlank_eq_self hHead, dropWhile_isBlank_eq_self, List.reverse_reverse]
  rwa [List.head?_reverse]

/-- What is left has no white space at its ends. -/
theorem isBlank_head?_trim (cs : List Char) : ∀ c ∈ (trim cs).head?, isBlank c = false := by
  intro c hc
  obtain ⟨rest, hRest⟩ := trim_prefix_dropWhile cs
  refine isBlank_head?_dropWhile cs c ?_
  rw [← hRest, List.head?_append]
  rw [Option.mem_def] at hc ⊢
  rw [hc]
  rfl

theorem isBlank_getLast?_trim (cs : List Char) :
    ∀ c ∈ (trim cs).getLast?, isBlank c = false := by
  intro c hc
  rw [trim, List.getLast?_reverse] at hc
  exact isBlank_head?_dropWhile _ c hc

/-- What is trimmed stays as it is. -/
@[simp] theorem trim_trim (cs : List Char) : trim (trim cs) = trim cs :=
  trim_eq_self (isBlank_head?_trim cs) (isBlank_getLast?_trim cs)

/-- White space at the end does not count. -/
theorem trim_append_blank {c : Char} (hc : isBlank c) (cs : List Char) :
    trim (cs ++ [c]) = trim cs := by
  rw [trim, trim, List.dropWhile_append]
  split
  · rename_i hempty
    have hAll : cs.dropWhile isBlank = [] := List.isEmpty_iff.1 hempty
    simp [hAll, hc]
  · simp [hc]

/-- White space at the front does not count. -/
theorem trim_cons_blank {c : Char} (hc : isBlank c) (cs : List Char) :
    trim (c :: cs) = trim cs := by
  rw [trim, trim, List.dropWhile_cons, if_pos hc]

theorem trim_append_blanks {blanks : List Char} (hBlanks : ∀ c ∈ blanks, isBlank c)
    (cs : List Char) : trim (cs ++ blanks) = trim cs := by
  induction blanks generalizing cs with
  | nil => rw [List.append_nil]
  | cons c blanks ih =>
      rw [List.append_cons, ih (fun d hd => hBlanks d (by simp [hd])),
        trim_append_blank (hBlanks c (by simp))]

theorem trim_blanks_append {blanks : List Char} (hBlanks : ∀ c ∈ blanks, isBlank c)
    (cs : List Char) : trim (blanks ++ cs) = trim cs := by
  induction blanks with
  | nil => rfl
  | cons c blanks ih =>
      rw [List.cons_append, trim_cons_blank (hBlanks c (by simp)),
        ih fun d hd => hBlanks d (by simp [hd])]

/-- What does not begin with white space has all of it at the end. -/
theorem exists_eq_trim_append {cs : List Char} (hHead : ∀ c ∈ cs.head?, isBlank c = false) :
    ∃ blanks, cs = trim cs ++ blanks ∧ ∀ c ∈ blanks, isBlank c := by
  refine ⟨(cs.reverse.takeWhile isBlank).reverse, ?_, fun c hc => ?_⟩
  · have hSplit := congrArg List.reverse
      (List.takeWhile_append_dropWhile (p := isBlank) (l := cs.reverse))
    rw [List.reverse_append, List.reverse_reverse] at hSplit
    rw [trim, dropWhile_isBlank_eq_self hHead, hSplit]
  · exact List.all_eq_true.1 List.all_takeWhile c (List.mem_reverse.1 hc)

/-- What does not end with white space has all of it in front. -/
theorem exists_eq_append_trim {cs : List Char} (hLast : ∀ c ∈ cs.getLast?, isBlank c = false) :
    ∃ blanks, cs = blanks ++ trim cs ∧ ∀ c ∈ blanks, isBlank c := by
  refine ⟨cs.takeWhile isBlank, ?_, fun c hc => List.all_eq_true.1 List.all_takeWhile c hc⟩
  obtain ⟨front, hFront⟩ := List.dropWhile_suffix (l := cs) isBlank
  have hEnd : ∀ c ∈ (cs.dropWhile isBlank).reverse.head?, isBlank c = false := by
    intro c hc
    rw [List.head?_reverse, Option.mem_def] at hc
    refine hLast c ?_
    rw [Option.mem_def, ← hFront, List.getLast?_append, hc, Option.some_or]
  rw [trim, dropWhile_isBlank_eq_self hEnd, List.reverse_reverse,
    List.takeWhile_append_dropWhile]

/-- No visible ASCII character is white space. -/
theorem isBlank_of_visible {c : Char} (hLow : 33 ≤ c.toNat) (hHigh : c.toNat ≤ 126) :
    isBlank c = false := by
  simp only [isBlank, Bool.or_eq_false_iff, Bool.and_eq_false_iff, decide_eq_false_iff_not,
    beq_eq_false_iff_ne]
  omega

/-- A text without white space stays as it is. -/
theorem trim_eq_self_of_forall {cs : List Char} (h : ∀ c ∈ cs, isBlank c = false) :
    trim cs = cs :=
  trim_eq_self (fun c hc => h c (List.mem_of_head? hc)) fun c hc => h c (List.mem_of_getLast? hc)

/-- Between two texts without white space at their ends, white space stays. -/
theorem trim_append_append {front back : List Char} (hFront : trim front = front)
    (hBack : trim back = back) (hNe : front ≠ []) (hNe' : back ≠ []) (middle : List Char) :
    trim (front ++ middle ++ back) = front ++ middle ++ back := by
  refine trim_eq_self (fun c hc => ?_) fun c hc => ?_
  · have hHead : (front ++ middle ++ back).head? = front.head? := by
      cases front with
      | nil => exact absurd rfl hNe
      | cons d front => rfl
    rw [hHead, ← hFront] at hc
    exact isBlank_head?_trim front c hc
  · have hLast : (front ++ middle ++ back).getLast? = back.getLast? := by
      rw [List.getLast?_append, List.getLast?_eq_some_getLast hNe', Option.some_or]
    rw [hLast, ← hBack] at hc
    exact isBlank_getLast?_trim back c hc

/-! ## Folding letter case -/

/-- No letter is white space. -/
@[simp] theorem isBlank_toLower (c : Char) : isBlank c.toLower = isBlank c := by
  rcases toLower_eq_self_or c with hSame | ⟨hLow, hHigh, hLower⟩
  · rw [hSame]
  · rw [isBlank_of_visible (by omega) (by omega), isBlank_of_visible (by omega) (by omega)]

/-- Folding keeps white space. -/
theorem trim_map_toLower (cs : List Char) :
    trim (cs.map Char.toLower) = (trim cs).map Char.toLower := by
  have hComp : isBlank ∘ Char.toLower = isBlank := funext isBlank_toLower
  simp only [trim, List.dropWhile_map, hComp, ← List.map_reverse]

/-! ## Lines -/

theorem lines_append_newline {line : List Char} (h : '\n' ∉ line) (rest : List Char) :
    lines (line ++ '\n' :: rest) = line :: lines rest := by
  induction line with
  | nil => simp [lines]
  | cons c line ih =>
      have hHead : c ≠ '\n' := fun hEq => h (by simp [hEq])
      have hTail : '\n' ∉ line := fun hMem => h (by simp [hMem])
      rw [List.cons_append, lines, if_neg hHead, ih hTail]

/-- Lines that are written one below the other are the lines of the text; the last line
feed begins an empty one. -/
theorem lines_flatMap_newline {ls : List (List Char)} (h : ∀ line ∈ ls, '\n' ∉ line) :
    lines (ls.flatMap (· ++ ['\n'])) = ls ++ [[]] := by
  induction ls with
  | nil => rfl
  | cons line ls ih =>
      rw [List.flatMap_cons, List.append_assoc, List.singleton_append,
        lines_append_newline (h line (by simp)), ih fun l hl => h l (by simp [hl])]
      rfl

/-- No line contains a line feed. -/
theorem newline_notMem_of_mem_lines {cs line : List Char} (h : line ∈ lines cs) :
    '\n' ∉ line := by
  fun_induction lines cs generalizing line with
  | case1 =>
      obtain rfl := List.mem_singleton.1 h
      simp
  | case2 cs ih =>
      rcases List.mem_cons.1 h with rfl | hRest
      · simp
      · exact ih hRest
  | case3 c cs hc hNil ih =>
      obtain rfl := List.mem_singleton.1 h
      simpa using fun hEq => hc hEq.symm
  | case4 c cs hc first rest hLines ih =>
      rw [hLines] at ih
      rcases List.mem_cons.1 h with rfl | hRest
      · have hFirst : '\n' ∉ first := ih List.mem_cons_self
        simpa [hFirst] using fun hEq => hc hEq.symm
      · exact ih (List.mem_cons_of_mem first hRest)

end Chip8.Text

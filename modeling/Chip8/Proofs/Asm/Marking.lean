import Chip8.Asm.Label
import Chip8.Proofs.Asm.Literal

/-!
# Definitions and their colons

The first pass of resolution makes a definition of an unknown identifier only where a
colon follows, and no token is a definition before it. The second pass turns other
tokens into references and leaves definitions and colons alone.

A reader sees the colon after the identifier. Here all tokens are there from the start,
so that each is marked by the one behind it, and references are marked by the
definitions of the whole row.

## Main definitions

* `markDefinitions`, `markReferences` — what the two passes make of a row of tokens.
* `Coloned` — every definition has its colon.

## Main results

* `markDefinition_cases`, `markReference_cases` — what can become of a token.
* `markDefinitions_cons`, `exists_markDefinitions_append`, `getElem?_markDefinitions` —
  tokens are marked one by one.
* `coloned_markDefinitions`, `coloned_map_markReference` — marked tokens are coloned.
* `plain_of_mem_scan` — the tokens that are read have no marks.
-/

namespace Chip8.Asm

theorem Token.unknown?_eq_some_iff {token : Token} {name : String} :
    token.unknown? = some name ↔ token = .ident (.unknown name) := by
  cases token with
  | ident id => cases id <;> simp [unknown?]
  | _ => simp [unknown?]

theorem Token.definition?_eq_some_iff {token : Token} {name : String} :
    token.definition? = some name ↔ token = .labelDef name := by
  cases token <;> simp [definition?]

/-- An unknown identifier is no definition yet. -/
theorem Token.definition?_eq_none_of_unknown {token : Token} {name : String}
    (hUnknown : token.unknown? = some name) : token.definition? = none := by
  rw [unknown?_eq_some_iff.1 hUnknown]
  rfl

/-- A token that stands in front of `next`: an unknown identifier becomes the definition
of a label if a colon follows. -/
def markDefinition (t : Located) (next : Token) : Located :=
  match t.token.unknown? with
  | some name => if next = .colon then { t with token := .labelDef name } else t
  | none => t

/-- The tokens with their definitions of labels marked. -/
def markDefinitions (ts : List Located) : List Located :=
  List.zipWith markDefinition ts ((ts.drop 1).map (·.token) ++ [.endOfInput])

/-- The tokens with their references to labels marked. -/
def markReferences (ts : List Located) : List Located :=
  ts.map (markReference (labelNames ts))

@[simp] theorem length_markDefinitions (ts : List Located) :
    (markDefinitions ts).length = ts.length := by
  simp [markDefinitions]
  omega

/-- Every definition of a label has its colon directly behind it. -/
def Coloned : List Located → Prop
  | [] => True
  | t :: ts =>
    (t.token.definition?.isSome → ∃ colon rest, ts = colon :: rest ∧ colon.token = .colon) ∧
      Coloned ts

variable {t : Located} {ts us : List Located} {name : String}

theorem coloned_of_append (h : Coloned (us ++ ts)) : Coloned ts := by
  induction us with
  | nil => exact h
  | cons u us ih => exact ih h.2

/-- The colon behind a definition. -/
theorem exists_colon_of_coloned (h : Coloned (t :: ts)) {name : String}
    (hName : t.token = .labelDef name) :
    ∃ colon rest, ts = colon :: rest ∧ colon.token = .colon := by
  refine h.1 ?_
  rw [hName]
  rfl

/-! ## Marking definitions -/

theorem markDefinition_of_unknown (hUnknown : t.token.unknown? = some name) (next : Token) :
    markDefinition t next = if next = .colon then { t with token := .labelDef name } else t := by
  rw [markDefinition, hUnknown]

theorem markDefinition_of_known (hKnown : t.token.unknown? = none) (next : Token) :
    markDefinition t next = t := by
  rw [markDefinition, hKnown]

theorem markDefinition_cases (t : Located) (next : Token) :
    markDefinition t next = t ∨ ∃ name, t.token.unknown? = some name ∧ next = .colon ∧
      markDefinition t next = { t with token := .labelDef name } := by
  cases hUnknown : t.token.unknown? with
  | none => exact .inl (markDefinition_of_known hUnknown next)
  | some name =>
      rw [markDefinition_of_unknown hUnknown]
      by_cases hNext : next = .colon
      · exact .inr ⟨name, rfl, hNext, if_pos hNext⟩
      · exact .inl (if_neg hNext)

/-- In front of anything but a colon, nothing is marked. -/
theorem markDefinition_of_ne_colon (t : Located) {next : Token} (hNext : next ≠ .colon) :
    markDefinition t next = t := by
  rcases markDefinition_cases t next with hSame | ⟨name, -, hColon, -⟩
  · exact hSame
  · exact absurd hColon hNext

/-- A token is marked by what stands behind it. -/
theorem markDefinitions_cons (t : Located) (ts : List Located) :
    markDefinitions (t :: ts) =
      markDefinition t ((ts.head?.map (·.token)).getD .endOfInput) :: markDefinitions ts := by
  cases ts with
  | nil => rfl
  | cons u us => rfl

theorem markDefinitions_singleton (t : Located) : markDefinitions [t] = [t] := by
  rw [markDefinitions_cons, markDefinition_of_ne_colon t (by simp)]
  rfl

/-- The marks of tokens in front of a token do not depend on what comes behind it. -/
theorem exists_markDefinitions_append (front : List Located) (t : Located) :
    ∃ marked, ∀ ts, markDefinitions (front ++ t :: ts) = marked ++ markDefinitions (t :: ts) := by
  induction front with
  | nil => exact ⟨[], fun _ => rfl⟩
  | cons u front ih =>
      rcases ih with ⟨marked, hMarked⟩
      refine ⟨markDefinition u (((front ++ [t]).head?.map (·.token)).getD .endOfInput) :: marked,
        fun ts => ?_⟩
      rw [List.cons_append, markDefinitions_cons, hMarked, List.cons_append]
      cases front <;> rfl

theorem getElem?_markDefinitions (ts : List Located) (k : Nat) :
    (markDefinitions ts)[k]? =
      ts[k]?.map fun t => markDefinition t ((ts[k + 1]?.map (·.token)).getD .endOfInput) := by
  induction ts generalizing k with
  | nil => rfl
  | cons t ts ih =>
      rw [markDefinitions_cons]
      cases k with
      | zero => simp [List.head?_eq_getElem?]
      | succ k => simpa using ih k

/-- Behind the last token anything but a colon marks as little as the end does. -/
theorem markDefinitions_concat (ts : List Located) (hToken : t.token ≠ .colon) :
    markDefinitions (ts ++ [t]) = markDefinitions ts ++ [t] := by
  induction ts with
  | nil => exact markDefinitions_singleton t
  | cons u ts ih =>
      rw [List.cons_append, markDefinitions_cons, markDefinitions_cons, ih]
      cases ts with
      | nil =>
          have hNext : markDefinition u t.token = u := markDefinition_of_ne_colon u hToken
          have hEnd : markDefinition u .endOfInput = u := markDefinition_of_ne_colon u (by simp)
          exact congrArg (· :: _) (hNext.trans hEnd.symm)
      | cons v vs => rfl

/-- What becomes a definition stands in front of a colon. -/
theorem eq_colon_of_markDefinition {next : Token} (hPlain : t.token.definition? = none)
    (hMarked : (markDefinition t next).token.definition?.isSome) : next = .colon := by
  by_contra hNext
  rw [markDefinition_of_ne_colon t hNext, hPlain] at hMarked
  exact absurd hMarked (by decide)

/-- Where nothing is defined yet, marking gives every definition its colon. -/
theorem coloned_markDefinitions (hPlain : ∀ t ∈ ts, t.token.definition? = none) :
    Coloned (markDefinitions ts) := by
  induction ts with
  | nil => exact trivial
  | cons t ts ih =>
      rw [List.forall_mem_cons] at hPlain
      rw [markDefinitions_cons]
      refine ⟨fun hMarked => ?_, ih hPlain.2⟩
      have hNext := eq_colon_of_markDefinition hPlain.1 hMarked
      cases ts with
      | nil => exact absurd hNext (by decide)
      | cons u us =>
          have hColon : u.token = .colon := hNext
          refine ⟨_, markDefinitions us, markDefinitions_cons u us, ?_⟩
          rw [markDefinition_of_known (by rw [hColon]; rfl)]
          exact hColon

/-- Marked tokens are the tokens of the text, each in front of another one. -/
theorem exists_of_mem_markDefinitions (h : t ∈ markDefinitions ts) :
    ∃ u ∈ ts, ∃ next, markDefinition u next = t := by
  rw [markDefinitions, ← List.map_uncurry_zip_eq_zipWith] at h
  rcases List.mem_map.1 h with ⟨⟨u, next⟩, hMem, hMarked⟩
  exact ⟨u, (List.of_mem_zip hMem).1, next, hMarked⟩

/-! ## Marking references -/

theorem markReference_of_unknown (hUnknown : t.token.unknown? = some name)
    (names : Std.TreeSet String) :
    markReference names t =
      if names.contains name then { t with token := .labelRef name } else t := by
  rw [markReference, hUnknown]

theorem markReference_of_known (hKnown : t.token.unknown? = none) (names : Std.TreeSet String) :
    markReference names t = t := by
  rw [markReference, hKnown]

theorem markReference_cases (names : Std.TreeSet String) (t : Located) :
    markReference names t = t ∨ ∃ name, t.token.unknown? = some name ∧ names.contains name ∧
      markReference names t = { t with token := .labelRef name } := by
  cases hUnknown : t.token.unknown? with
  | none => exact .inl (markReference_of_known hUnknown names)
  | some name =>
      rw [markReference_of_unknown hUnknown]
      by_cases hListed : names.contains name
      · exact .inr ⟨name, rfl, hListed, if_pos hListed⟩
      · exact .inl (if_neg hListed)

/-- Marking references neither makes definitions nor takes any away. -/
theorem definition?_markReference (names : Std.TreeSet String) (t : Located) :
    (markReference names t).token.definition? = t.token.definition? := by
  rcases markReference_cases names t with hSame | ⟨name, hUnknown, -, hMarked⟩
  · rw [hSame]
  · rw [hMarked, Token.definition?_eq_none_of_unknown hUnknown]
    rfl

theorem coloned_map_markReference (names : Std.TreeSet String) (h : Coloned ts) :
    Coloned (ts.map (markReference names)) := by
  induction ts with
  | nil => exact trivial
  | cons t ts ih =>
      refine ⟨fun hMarked => ?_, ih h.2⟩
      rw [definition?_markReference] at hMarked
      rcases h.1 hMarked with ⟨colon, rest, rfl, hColon⟩
      refine ⟨colon, rest.map (markReference names), ?_, hColon⟩
      rw [List.map_cons, markReference_of_known (by rw [hColon]; rfl)]

/-! ## Tokens as they are read -/

/-- Reading a text makes neither definitions nor references, and the end is not read as
a token. -/
theorem plain_of_mem_scan {source : String} (h : t ∈ (scan source).tokens) :
    t.token.definition? = none ∧ (∀ name, t.token ≠ .labelRef name) ∧ t.token ≠ .endOfInput := by
  rcases exists_lexeme_of_mem_scanFrom h with ⟨c, rest, hToken⟩
  rw [hToken]
  cases hLexeme : lexeme (c :: rest) with
  | nil => exact absurd hLexeme (lexeme_ne_nil c rest)
  | cons d ds =>
      simp only [Token.ofLexeme]
      repeat' split
      all_goals simp [Token.definition?]

/-- Reading a text makes no references, and neither does marking definitions. -/
theorem ne_labelRef_of_mem_markDefinitions {source : String}
    (h : t ∈ markDefinitions (scan source).tokens) (name : String) :
    t.token ≠ .labelRef name := by
  rcases exists_of_mem_markDefinitions h with ⟨u, hRead, next, rfl⟩
  rcases markDefinition_cases u next with hSame | ⟨other, -, -, hMarked⟩
  · rw [hSame]
    exact (plain_of_mem_scan hRead).2.1 name
  · simp [hMarked]

end Chip8.Asm

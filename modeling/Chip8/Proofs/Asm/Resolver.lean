import Chip8.Proofs.Asm.Marking

/-!
# Reading with labels resolved

A reader that resolves labels goes over the tokens of a text one by one. When it sees a
colon, it changes the token that it has read before, and so what it remembers is not
what it has read. It is what it has read with definitions marked, as far as they can be
told by the tokens that have been read: the latest one has nothing behind it yet. This,
and that the labels are the names that are defined in what is remembered, is kept with
every token.

The second pass changes tokens as well, but no definitions, and so the labels are still
the names that are defined when it is over.

## Main definitions

* `Resolver.Collected` — the invariant of the first pass.

## Main results

* `Resolver.take_cases` — what is done with a token.
* `Resolver.Collected.take`, `Resolver.Collected.foldl_take` — one token, and many.
* `Resolver.read_of_legal`, `Resolver.read_of_illegal` — reading a text.
* `resolve_of_legal`, `tokens_of_resolve` — a text without illegal characters is
  resolved, and its tokens are those that were read, marked.
* `coloned_of_resolve` — in resolved tokens, every definition has its colon.
* `exists_definition_of_resolve` — in resolved tokens, what is referred to is defined.
-/

namespace Chip8.Asm

/-- All tokens of a row are legal, or there is a first one that is not. -/
theorem legal_or_exists_first_illegal (ts : List Located) :
    (∀ t ∈ ts, t.token.illegal? = none) ∨
      ∃ front t later symbol, ts = front ++ t :: later ∧
        (∀ u ∈ front, u.token.illegal? = none) ∧ t.token = .illegal symbol := by
  induction ts with
  | nil => exact .inl fun t hMem => absurd hMem List.not_mem_nil
  | cons t ts ih =>
      by_cases hIllegal : ∃ symbol, t.token = .illegal symbol
      · rcases hIllegal with ⟨symbol, hIllegal⟩
        exact .inr ⟨[], t, ts, symbol, rfl, fun u hMem => absurd hMem List.not_mem_nil, hIllegal⟩
      · have hLegal : t.token.illegal? = none := by
          cases hToken : t.token with
          | illegal symbol => exact absurd ⟨symbol, hToken⟩ hIllegal
          | _ => rfl
        rcases ih with hAll | ⟨front, u, later, symbol, rfl, hFront, hFirst⟩
        · exact .inl (List.forall_mem_cons.2 ⟨hLegal, hAll⟩)
        · exact .inr ⟨t :: front, u, later, symbol, rfl,
            List.forall_mem_cons.2 ⟨hLegal, hFront⟩, hFirst⟩

namespace Resolver

variable {r : Resolver} {passed front later ts : List Located} {t : Located} {symbol : String}

/-! ## One token -/

/-- A colon makes an unknown identifier directly in front of it the definition of a
label. Any other token is only put behind the ones that have been read. -/
theorem take_cases (r : Resolver) (t : Located) :
    (∃ latest front name, t.token = .colon ∧ r.behind = latest :: front ∧
      latest.token.unknown? = some name ∧
      r.take t = { r with
        behind := t :: { latest with token := .labelDef name } :: front
        labels := r.labels.insert name }) ∨
    ((∀ latest, r.behind.head? = some latest → markDefinition latest t.token = latest) ∧
      r.take t = r.push t) := by
  by_cases hColon : t.token = .colon
  · have hTake : r.take t = r.defineLatest.push t := by rw [take, hColon]
    rw [hTake, defineLatest]
    cases r.behind with
    | nil => exact .inr ⟨by simp, rfl⟩
    | cons latest front =>
        cases hUnknown : latest.token.unknown? with
        | none =>
            refine .inr ⟨fun u hLatest => ?_, by simp only [hUnknown]⟩
            obtain rfl : latest = u := Option.some.inj hLatest
            rw [markDefinition, hUnknown]
        | some name =>
            exact .inl ⟨latest, front, name, hColon, rfl, hUnknown, by simp only [hUnknown]; rfl⟩
  · refine .inr ⟨fun latest _ => markDefinition_of_ne_colon latest hColon, ?_⟩
    unfold take
    split
    · rename_i hHere
      exact absurd hHere hColon
    · rfl

@[simp] theorem source_take (r : Resolver) (t : Located) : (r.take t).source = r.source := by
  rcases take_cases r t with ⟨latest, front, name, -, -, -, hTake⟩ | ⟨-, hTake⟩
  · rw [hTake]
  · rw [hTake]
    rfl

private theorem tokens_push (r : Resolver) (t : Located) : (r.push t).tokens = r.tokens ++ [t] := by
  rw [tokens, tokens, push, List.reverse_cons]

/-- The tokens that have been passed are remembered as they mark each other, and the
labels are the names that are defined in what is remembered. -/
structure Collected (passed : List Located) (r : Resolver) : Prop where
  tokens_eq : r.tokens = markDefinitions passed
  mem_labels_iff : ∀ name, name ∈ r.labels ↔ ∃ d ∈ r.tokens, d.token.definition? = some name

private theorem collected_nil {source : String} : Collected [] (start source) where
  tokens_eq := rfl
  mem_labels_iff name := by simp [start, tokens]

namespace Collected

/-- The latest token is remembered as it was read, because nothing has been read behind
it. -/
theorem exists_marked (hCollected : Collected passed r) {latest : Located}
    (hLatest : r.behind.head? = some latest) :
    ∃ marked, r.behind = latest :: marked.reverse ∧
      markDefinitions passed = marked ++ [latest] ∧
        markDefinitions (passed ++ [t]) = marked ++ [markDefinition latest t.token, t] := by
  rcases List.eq_nil_or_concat passed with rfl | ⟨front, last, hPassed⟩
  · have hNothing : r.behind = [] := List.reverse_eq_nil_iff.1 hCollected.tokens_eq
    rw [hNothing] at hLatest
    exact absurd hLatest (by simp)
  · rw [List.concat_eq_append] at hPassed
    subst hPassed
    rcases exists_markDefinitions_append front last with ⟨marked, hMarked⟩
    have hLast := markDefinitions_singleton last
    have hTwo : markDefinitions [last, t] = [markDefinition last t.token, t] := by
      rw [markDefinitions_cons, markDefinitions_singleton]
      rfl
    have hTokens : r.tokens = marked ++ [last] := by
      rw [hCollected.tokens_eq, hMarked, hLast]
    have hBehind : r.behind = last :: marked.reverse := by
      rw [← List.reverse_reverse r.behind, ← tokens, hTokens, List.reverse_append]
      rfl
    obtain rfl : last = latest := by
      rw [hBehind] at hLatest
      exact Option.some.inj hLatest
    refine ⟨marked, hBehind, by rw [hMarked, hLast], ?_⟩
    rw [List.append_assoc, List.cons_append, List.nil_append, hMarked, hTwo]

/-- A colon behind an unknown identifier: this is marked, and its name is a label. -/
theorem define (hCollected : Collected passed r) (hPlain : t.token.definition? = none)
    (hColon : t.token = .colon) {latest : Located} (hBehind : r.behind = latest :: front)
    {name : String} (hUnknown : latest.token.unknown? = some name) :
    Collected (passed ++ [t]) { r with
      behind := t :: { latest with token := .labelDef name } :: front
      labels := r.labels.insert name } := by
  rcases hCollected.exists_marked (t := t) (congrArg List.head? hBehind) with
    ⟨marked, hMarked, hPassed, hNow⟩
  obtain rfl : front = marked.reverse := List.tail_eq_of_cons_eq (hBehind.symm.trans hMarked)
  have hMark : markDefinition latest t.token = { latest with token := .labelDef name } := by
    rw [markDefinition_of_unknown hUnknown, if_pos hColon]
  refine ⟨?_, fun other => ?_⟩
  · rw [hNow, hMark]
    simp [tokens]
  · have hBefore := hCollected.mem_labels_iff other
    rw [hCollected.tokens_eq, hPassed] at hBefore
    have hDefined : (Token.labelDef name).definition? = some name := rfl
    have hLatest := Token.definition?_eq_none_of_unknown hUnknown
    rw [Std.TreeSet.mem_insert, Std.compare_eq_iff_eq, hBefore]
    simp only [tokens, List.mem_reverse, List.mem_append, List.mem_cons, List.not_mem_nil, or_false,
      or_and_right, exists_or, exists_eq_left, hLatest, hPlain, hDefined, Option.some.injEq,
      reduceCtorEq, false_or]

/-- Any other token leaves the marks in front of it as they are. -/
theorem push (hCollected : Collected passed r) (hPlain : t.token.definition? = none)
    (hSame : ∀ latest, r.behind.head? = some latest → markDefinition latest t.token = latest) :
    Collected (passed ++ [t]) (r.push t) := by
  refine ⟨?_, fun other => ?_⟩
  · rw [tokens_push]
    cases hLatest : r.behind.head? with
    | none =>
        have hNothing : markDefinitions passed = [] := by
          rw [← hCollected.tokens_eq, tokens, List.head?_eq_none_iff.1 hLatest]
          rfl
        have hPassed : passed = [] :=
          List.length_eq_zero_iff.1 (by rw [← length_markDefinitions, hNothing]; rfl)
        rw [hCollected.tokens_eq, hNothing, hPassed, List.nil_append, markDefinitions_singleton]
    | some latest =>
        rcases hCollected.exists_marked (t := t) hLatest with ⟨marked, -, hPassed, hNow⟩
        rw [hCollected.tokens_eq, hPassed, hNow, hSame latest hLatest, List.append_assoc]
        rfl
  · have hLabels : (r.push t).labels = r.labels := rfl
    rw [hLabels, tokens_push, hCollected.mem_labels_iff]
    simp [hPlain]

/-- One more token. -/
theorem take (hCollected : Collected passed r) (hPlain : t.token.definition? = none) :
    Collected (passed ++ [t]) (r.take t) := by
  rcases take_cases r t with
    ⟨latest, front, name, hColon, hBehind, hUnknown, hTake⟩ | ⟨hSame, hTake⟩
  · rw [hTake]
    exact hCollected.define hPlain hColon hBehind hUnknown
  · rw [hTake]
    exact hCollected.push hPlain hSame

/-- Many tokens. -/
theorem foldl_take (hCollected : Collected passed r)
    (hPlain : ∀ t ∈ ts, t.token.definition? = none) :
    Collected (passed ++ ts) (ts.foldl Resolver.take r) := by
  induction ts generalizing passed r with
  | nil => rwa [List.append_nil]
  | cons t ts ih =>
      rw [List.forall_mem_cons] at hPlain
      rw [List.append_cons]
      exact ih (hCollected.take hPlain.1) hPlain.2

end Collected

/-! ## The first pass -/

/-- Legal tokens are read one by one. -/
theorem collect_append (hLegal : ∀ t ∈ front, t.token.illegal? = none ∧ t.token ≠ .endOfInput) :
    r.collect (front ++ later) = (front.foldl take r).collect later := by
  induction front generalizing r with
  | nil => rfl
  | cons t front ih =>
      rw [List.forall_mem_cons] at hLegal
      rw [List.cons_append, List.foldl_cons, ← ih hLegal.2, collect]
      split
      · rename_i hEnd
        exact absurd hEnd hLegal.1.2
      · rename_i symbol hIllegal
        rw [hIllegal] at hLegal
        exact absurd hLegal.1.1 (by simp [Token.illegal?])
      · rfl

private theorem source_collect (r : Resolver) (ts : List Located) :
    (r.collect ts).2.source = r.source := by
  induction ts generalizing r with
  | nil => rfl
  | cons t ts ih =>
      rw [collect]
      split
      · exact source_take r t
      · exact source_take r t
      · rw [ih, source_take]

/-! ## Reading -/

/-- Going back, nothing is left of what a reader has done. -/
theorem rewind_eq_start (r : Resolver) : r.rewind = start r.source := rfl

private theorem read_of_collect_ok {r' : Resolver}
    (hCollect : r.rewind.collect r.rewind.ahead = (.ok (), r')) : r.read = (.ok (), r'.refer) := by
  rw [read, hCollect]

private theorem read_of_collect_error {r' : Resolver} {e : ParseError}
    (hCollect : r.rewind.collect r.rewind.ahead = (.error e, r')) : r.read = (.error e, r') := by
  rw [read, hCollect]

@[simp] theorem source_read (r : Resolver) : r.read.2.source = r.source := by
  have hSource : (r.rewind.collect r.rewind.ahead).2.source = r.source := source_collect _ _
  rcases hCollect : r.rewind.collect r.rewind.ahead with ⟨e | _, r'⟩
  · rw [read_of_collect_error hCollect]
    rwa [hCollect] at hSource
  · rw [read_of_collect_ok hCollect]
    rwa [hCollect] at hSource

/-- What is read depends on the text alone. -/
theorem read_congr {other : Resolver} (hSource : other.source = r.source) :
    other.read = r.read := by
  rw [read, read, rewind_eq_start, rewind_eq_start, hSource]

/-- A text without illegal characters is read to its end. -/
theorem read_of_legal (hLegal : ∀ t ∈ (scan r.source).tokens, t.token.illegal? = none) :
    ∃ r', r.read = (.ok (), r') ∧ r'.source = r.source ∧
      r'.tokens = (markDefinitions (scan r.source).throughEnd).map (markReference r'.labels) ∧
      ∀ name, name ∈ r'.labels ↔ ∃ d ∈ r'.tokens, d.token.definition? = some name := by
  have hPlain : ∀ t ∈ (scan r.source).throughEnd, t.token.definition? = none := by
    intro t hMem
    rcases List.mem_append.1 hMem with hToken | hEnd
    · exact (plain_of_mem_scan hToken).1
    · rw [List.mem_singleton.1 hEnd]
      rfl
  have hCollected : Collected (scan r.source).throughEnd
      ((scan r.source).throughEnd.foldl take (start r.source)) := collected_nil.foldl_take hPlain
  have hCollect : r.rewind.collect r.rewind.ahead = (.ok (),
      { (scan r.source).throughEnd.foldl take (start r.source) with ahead := [] }) := by
    show (start r.source).collect (scan r.source).throughEnd = _
    rw [TokenStream.throughEnd, collect_append fun t hMem =>
      ⟨hLegal t hMem, (plain_of_mem_scan hMem).2.2⟩, List.foldl_append]
    rfl
  generalize (scan r.source).throughEnd.foldl take (start r.source) = r' at hCollected hCollect
  have hSource : r'.source = r.source := by
    have hKept := source_collect r.rewind r.rewind.ahead
    rwa [hCollect] at hKept
  have hTokens : r'.refer.tokens = r'.tokens.map (markReference r'.labels) := by
    rw [tokens, tokens, refer, List.map_reverse]
  refine ⟨{ r'.refer with ahead := [] }, read_of_collect_ok hCollect, hSource, ?_, fun name => ?_⟩
  · exact hTokens.trans (by rw [hCollected.tokens_eq]; rfl)
  · show name ∈ r'.labels ↔ ∃ d ∈ r'.refer.tokens, d.token.definition? = some name
    rw [hTokens]
    simp only [List.mem_map, exists_exists_and_eq_and, definition?_markReference]
    exact hCollected.mem_labels_iff name

/-- Any other text is read up to its first illegal character. -/
theorem read_of_illegal (hText : (scan r.source).tokens = front ++ t :: later)
    (hLegal : ∀ u ∈ front, u.token.illegal? = none) (hIllegal : t.token = .illegal symbol) :
    ∃ r', r.read = (.error ⟨.illegalToken symbol, .single t.span⟩, r') := by
  have hFront : ∀ u ∈ front, u.token.illegal? = none ∧ u.token ≠ .endOfInput := by
    intro u hMem
    have hRead : u ∈ (scan r.source).tokens := hText ▸ List.mem_append_left _ hMem
    exact ⟨hLegal u hMem, (plain_of_mem_scan hRead).2.2⟩
  have hCollect : r.rewind.collect r.rewind.ahead =
      (.error ⟨.illegalToken symbol, .single t.span⟩,
        { (front.foldl take (start r.source)).take t with
          ahead := later ++ [(scan r.source).marker] }) := by
    show (start r.source).collect (scan r.source).throughEnd = _
    rw [TokenStream.throughEnd, hText, List.append_assoc, collect_append hFront, List.cons_append,
      collect, hIllegal]
  exact ⟨_, read_of_collect_error hCollect⟩

end Resolver

/-! ## Resolved texts -/

variable {source : String} {stream : TokenStream} {t : Located}

/-- A text without illegal characters is resolved. -/
theorem resolve_of_legal (hLegal : ∀ t ∈ (scan source).tokens, t.token.illegal? = none) :
    resolve source = .ok { scan source with
      tokens := markReferences (markDefinitions (scan source).tokens) } := by
  rcases Resolver.read_of_legal (r := .start source) hLegal with
    ⟨r', hRead, hSource, hTokens, hLabels⟩
  have hWhole : r'.tokens = (markDefinitions (scan source).tokens).map (markReference r'.labels) ++
      [(scan source).marker] := by
    rw [hTokens, TokenStream.throughEnd, markDefinitions_concat _ (by simp [TokenStream.marker]),
      List.map_append]
    rfl
  have hEnd : (scan source).marker.token.definition? = none := rfl
  have hNames (name : String) : r'.labels.contains name =
      (labelNames (markDefinitions (scan source).tokens)).contains name := by
    rw [Bool.eq_iff_iff, Std.TreeSet.contains_iff_mem, hLabels, hWhole, labelNames,
      Std.TreeSet.contains_ofList, List.contains_iff_mem, List.mem_filterMap]
    simp only [List.mem_append, List.mem_singleton, List.mem_map, or_and_right, exists_or,
      exists_eq_left, hEnd, reduceCtorEq, or_false, exists_exists_and_eq_and,
      definition?_markReference]
  have hMarks : markReference r'.labels =
      markReference (labelNames (markDefinitions (scan source).tokens)) := by
    funext t
    simp only [markReference, hNames]
  rw [resolve, hRead]
  refine congrArg Except.ok ?_
  rw [Resolver.stream, hWhole, hSource, hMarks, List.dropLast_concat]
  rfl

/-- A text with an illegal character is not resolved. -/
theorem resolve_of_illegal {front later : List Located} {symbol : String}
    (hText : (scan source).tokens = front ++ t :: later)
    (hLegal : ∀ u ∈ front, u.token.illegal? = none) (hIllegal : t.token = .illegal symbol) :
    resolve source = .error ⟨.illegalToken symbol, .single t.span⟩ := by
  rcases Resolver.read_of_illegal (r := .start source) hText hLegal hIllegal with ⟨r', hRead⟩
  rw [resolve, hRead]

/-- The tokens of a resolved text are those of the text, marked. -/
theorem tokens_of_resolve (h : resolve source = .ok stream) :
    stream.tokens = markReferences (markDefinitions (scan source).tokens) := by
  rcases legal_or_exists_first_illegal (scan source).tokens with
    hLegal | ⟨front, u, later, symbol, hText, hFront, hIllegal⟩
  · rw [resolve_of_legal hLegal] at h
    rw [← Except.ok.inj h]
  · rw [resolve_of_illegal hText hFront hIllegal] at h
    exact absurd h (by simp)

/-- Texts with the same tokens are resolved alike. -/
theorem resolve_congr {source' : String} (hSame : scan source = scan source') :
    resolve source = resolve source' := by
  rcases legal_or_exists_first_illegal (scan source).tokens with
    hLegal | ⟨front, u, later, symbol, hText, hFront, hIllegal⟩
  · rw [resolve_of_legal hLegal, resolve_of_legal (hSame ▸ hLegal), hSame]
  · rw [resolve_of_illegal hText hFront hIllegal,
      resolve_of_illegal (hSame ▸ hText) hFront hIllegal]

/-- In resolved tokens, every definition has its colon. -/
theorem coloned_of_resolve (h : resolve source = .ok stream) : Coloned stream.tokens := by
  rw [tokens_of_resolve h]
  exact coloned_map_markReference _
    (coloned_markDefinitions fun t ht => (plain_of_mem_scan ht).1)

/-- In resolved tokens, what is referred to is defined. -/
theorem exists_definition_of_resolve (h : resolve source = .ok stream) (hMem : t ∈ stream.tokens)
    {name : String} (hName : t.token = .labelRef name) :
    ∃ u ∈ stream.tokens, u.token = .labelDef name := by
  rw [tokens_of_resolve h] at hMem ⊢
  rcases List.mem_map.1 hMem with ⟨u, hMarked, rfl⟩
  have hPlain := ne_labelRef_of_mem_markDefinitions hMarked name
  have hListed : (labelNames (markDefinitions (scan source).tokens)).contains name := by
    rcases markReference_cases (labelNames (markDefinitions (scan source).tokens)) u with
      hSame | ⟨other, -, hOther, hMarked⟩
    · rw [hSame] at hName
      exact absurd hName hPlain
    · rw [hMarked] at hName
      exact Token.labelRef.inj hName ▸ hOther
  rw [labelNames, Std.TreeSet.contains_ofList, List.contains_iff_mem] at hListed
  rcases List.mem_filterMap.1 hListed with ⟨d, hDefined, hDefinition⟩
  refine ⟨_, List.mem_map_of_mem hDefined, ?_⟩
  rw [← Token.definition?_eq_some_iff, definition?_markReference]
  exact hDefinition

end Chip8.Asm

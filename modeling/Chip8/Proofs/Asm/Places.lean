import Chip8.Proofs.Asm.Lexing
import Chip8.Proofs.Asm.Resolver

/-!
# The places of tokens

A place in a text is a range of bytes, and not every range of bytes is a piece of text:
its ends may lie outside of the text or inside of a character. Taking out the piece at a
place therefore fails, unless both ends lie between characters and the first does not
lie behind the second.

The places of tokens are such places, because a token is made of whole characters.
Resolving labels changes tokens and leaves their places alone, so the same holds for the
tokens of a resolved text. It holds for rows of tokens as well, from the first byte of
the first token to the last byte of the last one: tokens lie in the text one behind the
other.

## Main definitions

* `Text.splitBytes?`, `Span.piece?` — cutting a text at an offset, and taking a piece
  out of it.
* `Token.ComesFrom` — what resolving labels makes of a token.
* `Located.StandsFor` — a token is at the place where it is written.

## Main results

* `Span.piece?_eq_some_iff` — what stands at a place.
* `forall₂_comesFrom_of_resolve`, `exists_standsFor_of_resolve` — the tokens of a
  resolved text.
* `exists_piece?_of_runs` — the place of a row of tokens.
-/

namespace Chip8

namespace Text

/-- The characters before and behind an offset, if it lies between two characters. -/
def splitBytes? : Nat → List Char → Option (List Char × List Char)
  | 0, cs => some ([], cs)
  | _ + 1, [] => none
  | n + 1, c :: cs =>
    if c.utf8Size ≤ n + 1 then
      (splitBytes? (n + 1 - c.utf8Size) cs).map fun (front, back) => (c :: front, back)
    else none

private theorem splitBytes?_eq_some_iff {n : Nat} {cs front back : List Char} :
    splitBytes? n cs = some (front, back) ↔ cs = front ++ back ∧ n = byteLength front := by
  induction cs generalizing n front with
  | nil =>
      cases n with
      | zero => cases front <;> simp [splitBytes?]
      | succ n => cases front <;> simp [splitBytes?]
  | cons c cs ih =>
      have hPositive := c.utf8Size_pos
      cases n with
      | zero =>
          cases front with
          | nil => simp [splitBytes?]
          | cons d front =>
              have hSize := d.utf8Size_pos
              simp only [splitBytes?, Option.some.injEq, Prod.mk.injEq, reduceCtorEq, false_and,
                false_iff, byteLength_cons]
              omega
      | succ n =>
          cases front with
          | nil => simp [splitBytes?]
          | cons d front =>
              rw [splitBytes?, List.cons_append, List.cons.injEq, byteLength_cons]
              by_cases hRoom : c.utf8Size ≤ n + 1
              · rw [if_pos hRoom]
                constructor
                · intro hSplit
                  rcases Option.map_eq_some_iff.1 hSplit with ⟨⟨front', back'⟩, hRest, hPair⟩
                  rcases Prod.mk.inj hPair with ⟨hFront, rfl⟩
                  rcases List.cons.inj hFront with ⟨rfl, rfl⟩
                  rcases ih.1 hRest with ⟨hRow, hLength⟩
                  exact ⟨⟨rfl, hRow⟩, by omega⟩
                · rintro ⟨⟨rfl, hRow⟩, hLength⟩
                  rw [ih.2 ⟨hRow, by omega⟩]
                  rfl
              · rw [if_neg hRoom]
                simp only [reduceCtorEq, false_iff]
                rintro ⟨⟨rfl, -⟩, hLength⟩
                omega

/-- Of two beginnings of a text, the one with fewer bytes is the beginning of the
other. -/
theorem prefix_of_byteLength_le {as bs cs : List Char} (hFirst : as <+: cs) (hSecond : bs <+: cs)
    (hBytes : byteLength as ≤ byteLength bs) : as <+: bs := by
  rcases List.prefix_or_prefix_of_prefix hFirst hSecond with hPrefix | ⟨more, rfl⟩
  · exact hPrefix
  · have hNone : more = [] := by
      by_contra hSome
      have hPositive := Asm.byteLength_pos hSome
      rw [byteLength_append] at hBytes
      omega
    rw [hNone, List.append_nil]

end Text

namespace Asm

open Text (byteLength foldCase splitBytes?)

/-! ## Pieces of a text -/

namespace Span

/-- The characters at a place of a text, if it begins and ends between characters. -/
def piece? (s : Span) (source : String) : Option (List Char) :=
  (splitBytes? s.stop source.toList).bind fun (through, _) =>
    (splitBytes? s.start through).map (·.2)

variable {s : Span} {source : String} {piece : List Char}

/-- A piece of a text is what begins behind as many bytes as the place says. -/
theorem piece?_eq_some_iff : s.piece? source = some piece ↔
    ∃ front back, source.toList = front ++ (piece ++ back) ∧
      s = ⟨byteLength front, byteLength (front ++ piece)⟩ := by
  constructor
  · intro hPiece
    rcases Option.bind_eq_some_iff.1 hPiece with ⟨⟨through, back⟩, hStop, hStart⟩
    rcases Option.map_eq_some_iff.1 hStart with ⟨⟨front, behind⟩, hSplit, rfl⟩
    rcases Text.splitBytes?_eq_some_iff.1 hStop with ⟨hWhole, hThrough⟩
    rcases Text.splitBytes?_eq_some_iff.1 hSplit with ⟨rfl, hFront⟩
    refine ⟨front, back, by rw [hWhole, List.append_assoc], ?_⟩
    rw [← hFront, ← hThrough]
  · rintro ⟨front, back, hWhole, rfl⟩
    have hStop : splitBytes? (byteLength (front ++ piece)) source.toList =
        some (front ++ piece, back) :=
      Text.splitBytes?_eq_some_iff.2 ⟨by rw [hWhole, List.append_assoc], rfl⟩
    have hStart : splitBytes? (byteLength front) (front ++ piece) = some (front, piece) :=
      Text.splitBytes?_eq_some_iff.2 ⟨rfl, rfl⟩
    rw [piece?, hStop, Option.bind_some]
    simp only [hStart, Option.map_some]

/-- Where there is a piece of the text, the place is a range inside of it. -/
theorem bounds_of_piece? (hPiece : s.piece? source = some piece) :
    s.start ≤ s.stop ∧ s.stop ≤ (Text.toUtf8 source).length := by
  rcases piece?_eq_some_iff.1 hPiece with ⟨front, back, hWhole, rfl⟩
  rw [length_toUtf8, hWhole]
  simp only [Text.byteLength_append]
  omega

/-- Nothing stands at the end of a text. -/
theorem piece?_end (source : String) :
    (⟨byteLength source.toList, byteLength source.toList⟩ : Span).piece? source = some [] := by
  rw [piece?_eq_some_iff]
  exact ⟨source.toList, [], by simp, by simp⟩

end Span

/-! ## The tokens of a resolved text -/

/-- Resolving labels makes the token of the one that was read: it keeps it, or it turns
a word into the definition of a label or into a reference to one. -/
def Token.ComesFrom (token read : Token) : Prop :=
  token = read ∨ ∃ name, read = .ident (.unknown name) ∧
    (token = .labelDef name ∨ token = .labelRef name)

namespace Token.ComesFrom

variable {token read : Token}

/-- Only labels are made of other tokens. -/
theorem eq_of_ne (hFrom : token.ComesFrom read) (hDefinition : ∀ name, token ≠ .labelDef name)
    (hReference : ∀ name, token ≠ .labelRef name) : token = read := by
  rcases hFrom with hSame | ⟨name, -, hLabel | hLabel⟩
  · exact hSame
  · exact absurd hLabel (hDefinition name)
  · exact absurd hLabel (hReference name)

/-- The definition of a label comes from the word in front of the colon. -/
theorem eq_unknown {name : String} (hFrom : (Token.labelDef name).ComesFrom read)
    (hPlain : read.definition? = none) : read = .ident (.unknown name) := by
  rcases hFrom with rfl | ⟨other, hUnknown, hLabel | hLabel⟩
  · exact absurd hPlain (by simp [Token.definition?])
  · rw [hUnknown, Token.labelDef.inj hLabel]
  · exact absurd hLabel (by simp)

/-- What a token carries does not change. -/
theorem literal? (hFrom : token.ComesFrom read) : read.literal? = token.literal? := by
  rcases hFrom with rfl | ⟨name, rfl, rfl | rfl⟩ <;> rfl

/-- Neither does what is shown of it. -/
theorem text (hFrom : token.ComesFrom read) : read.text = token.text := by
  rcases hFrom with rfl | ⟨name, rfl, rfl | rfl⟩ <;> rfl

end Token.ComesFrom

variable {source : String} {stream : TokenStream} {t : Located} {ts : List Located}

/-- Marking definitions leaves tokens at their places. -/
theorem forall₂_markDefinitions (ts : List Located) :
    List.Forall₂ (fun u t => t.span = u.span ∧ (t.token = u.token ∨
      ∃ name, u.token = .ident (.unknown name) ∧ t.token = .labelDef name))
      ts (markDefinitions ts) := by
  induction ts with
  | nil => exact .nil
  | cons t ts ih =>
      rw [markDefinitions_cons]
      refine .cons ?_ ih
      rcases markDefinition_cases t ((ts.head?.map (·.token)).getD .endOfInput) with
        hSame | ⟨name, hUnknown, -, hMarked⟩
      · rw [hSame]
        exact ⟨rfl, .inl rfl⟩
      · rw [hMarked]
        exact ⟨rfl, .inr ⟨name, Token.unknown?_eq_some_iff.1 hUnknown, rfl⟩⟩

/-- The tokens of a resolved text are those that were read, at their places. -/
theorem forall₂_comesFrom_of_resolve (hResolve : resolve source = .ok stream) :
    List.Forall₂ (fun u t => t.span = u.span ∧ t.token.ComesFrom u.token)
      (scan source).tokens stream.tokens := by
  rw [tokens_of_resolve hResolve, markReferences]
  refine List.forall₂_map_right_iff.2 ((forall₂_markDefinitions _).imp ?_)
  rintro u t ⟨hSpan, hMarked⟩
  rcases markReference_cases (labelNames (markDefinitions (scan source).tokens)) t with
    hSame | ⟨name, hUnknown, -, hReference⟩
  · rw [hSame]
    refine ⟨hSpan, hMarked.imp_right ?_⟩
    rintro ⟨name, hWord, hDefinition⟩
    exact ⟨name, hWord, .inl hDefinition⟩
  · have hToken := Token.unknown?_eq_some_iff.1 hUnknown
    rw [hReference]
    refine ⟨hSpan, .inr ⟨name, ?_, .inr rfl⟩⟩
    rcases hMarked with hKept | ⟨other, -, hDefinition⟩
    · rw [← hKept, hToken]
    · rw [hToken] at hDefinition
      cases hDefinition

/-- The token is at the place in the text where it is written with these characters. -/
def Located.StandsFor (t : Located) (source : String) (lead : List Char) : Prop :=
  ∃ front rest read, source.toList = front ++ (lead ++ rest) ∧
    t.span = ⟨byteLength front, byteLength (front ++ lead)⟩ ∧ Reads lead rest read ∧
      t.token.ComesFrom read

namespace Located.StandsFor

variable {lead : List Char}

/-- The characters of the token are what stands at its place. -/
theorem piece? (hStands : t.StandsFor source lead) : t.span.piece? source = some lead := by
  rcases hStands with ⟨front, rest, read, hWhole, hSpan, -, -⟩
  exact Span.piece?_eq_some_iff.2 ⟨front, rest, hWhole, hSpan⟩

/-- What a token carries is its text in small letters. -/
theorem literal {text : String} (hStands : t.StandsFor source lead)
    (hLiteral : t.token.literal? = some text) : foldCase (String.ofList lead) = text := by
  rcases hStands with ⟨front, rest, read, -, -, hReads, hFrom⟩
  exact (hReads.literal (hFrom.literal?.trans hLiteral)).symm

end Located.StandsFor

/-- A token that comes from one that was read at its place stands where that one is
written. -/
theorem exists_standsFor_of_read {u : Located} (hRead : u ∈ (scan source).tokens)
    (hSpan : t.span = u.span) (hFrom : t.token.ComesFrom u.token) :
    ∃ lead, t.StandsFor source lead := by
  have hTiled : Tiled 0 source.toList (scan source).tokens := tiled_scanFrom 0 source.toList
  rcases hTiled.exists_place hRead with ⟨front, lead, rest, hWhole, -, hPlace, hReads⟩
  simp only [Nat.zero_add] at hPlace
  exact ⟨lead, front, rest, u.token, hWhole, hSpan.trans hPlace, hReads, hFrom⟩

/-- Every token of a resolved text comes from the one that was read at the same place,
as many tokens behind the first. -/
theorem exists_getElem?_of_resolve (hResolve : resolve source = .ok stream) {k : Nat}
    (hHere : stream.tokens[k]? = some t) :
    ∃ u, (scan source).tokens[k]? = some u ∧ t.span = u.span ∧ t.token.ComesFrom u.token := by
  have hRows := forall₂_comesFrom_of_resolve hResolve
  rcases List.getElem?_eq_some_iff.1 hHere with ⟨hInside, rfl⟩
  have hInside' : k < (scan source).tokens.length := hRows.length_eq ▸ hInside
  exact ⟨_, List.getElem?_eq_getElem hInside', hRows.get hInside' hInside⟩

theorem exists_read_of_resolve (hResolve : resolve source = .ok stream)
    (hMem : t ∈ stream.tokens) :
    ∃ u ∈ (scan source).tokens, t.span = u.span ∧ t.token.ComesFrom u.token := by
  rcases List.getElem?_of_mem hMem with ⟨k, hHere⟩
  rcases exists_getElem?_of_resolve hResolve hHere with ⟨u, hRead, hFrom⟩
  exact ⟨u, List.mem_of_getElem? hRead, hFrom⟩

/-- Every token of a resolved text stands where it is written. -/
theorem exists_standsFor_of_resolve (hResolve : resolve source = .ok stream)
    (hMem : t ∈ stream.tokens) : ∃ lead, t.StandsFor source lead := by
  rcases exists_read_of_resolve hResolve hMem with ⟨u, hRead, hSpan, hFrom⟩
  exact exists_standsFor_of_read hRead hSpan hFrom

/-- A resolved text ends where the text does. -/
theorem stop_of_resolve (hResolve : resolve source = .ok stream) :
    stream.stop = byteLength source.toList := by
  rcases legal_or_exists_first_illegal (scan source).tokens with
    hLegal | ⟨front, u, later, symbol, hText, hFront, hIllegal⟩
  · rw [resolve_of_legal hLegal] at hResolve
    rw [← Except.ok.inj hResolve]
    rfl
  · rw [resolve_of_illegal hText hFront hIllegal] at hResolve
    exact absurd hResolve (by simp)

/-! ## Rows of tokens -/

/-- The tokens of a resolved text have the places of those that were read. -/
theorem map_span_of_resolve (hResolve : resolve source = .ok stream) :
    stream.tokens.map (·.span) = (scan source).tokens.map (·.span) := by
  have hRows := forall₂_comesFrom_of_resolve hResolve
  generalize (scan source).tokens = us at hRows ⊢
  generalize stream.tokens = ts at hRows ⊢
  induction hRows with
  | nil => rfl
  | cons hHere _ ih => rw [List.map_cons, List.map_cons, hHere.1, ih]

/-- The tokens of a resolved text lie one behind the other. -/
theorem pairwise_of_resolve (hResolve : resolve source = .ok stream) :
    stream.tokens.Pairwise fun a b => a.span.start < b.span.start := by
  have hTiled : Tiled 0 source.toList (scan source).tokens := tiled_scanFrom 0 source.toList
  have hRead : ((scan source).tokens.map (·.span)).Pairwise fun a b => a.start < b.start :=
    List.pairwise_map.2 (hTiled.pairwise.imp And.left)
  rw [← map_span_of_resolve hResolve, List.pairwise_map] at hRead
  exact hRead

/-- The place runs from the first byte of the first token to the last byte of the last
one. -/
def Span.Runs (s : Span) (ts : List Located) : Prop :=
  ∃ first last, ts.head? = some first ∧ ts.getLast? = some last ∧
    s = ⟨first.span.start, last.span.stop⟩

theorem runs_cover (hTokens : ts ≠ []) : (Span.cover (ts.map (·.span))).Runs ts := by
  refine ⟨ts.head hTokens, ts.getLast hTokens, List.head?_eq_some_head hTokens,
    List.getLast?_eq_some_getLast hTokens, ?_⟩
  rw [Span.cover, List.head?_map, List.getLast?_map, List.head?_eq_some_head hTokens,
    List.getLast?_eq_some_getLast hTokens]
  rfl

/-- A row of tokens of a resolved text has a place. Its first token begins in front of
the end of its last one, so that one of these offsets cuts a beginning of the text from
that of the other. -/
theorem exists_piece?_of_runs {s : Span} (hResolve : resolve source = .ok stream)
    (hRow : ts <:+: stream.tokens) (hRuns : s.Runs ts) : ∃ piece, s.piece? source = some piece := by
  rcases hRuns with ⟨first, last, hFirst, hLast, rfl⟩
  rcases List.head?_eq_some_iff.1 hFirst with ⟨more, rfl⟩
  have hLastMem := List.mem_of_getLast? hLast
  have hOrder := (pairwise_of_resolve hResolve).sublist hRow.sublist
  rcases exists_standsFor_of_resolve hResolve (hRow.mem List.mem_cons_self) with
    ⟨lead, front, rest, -, hWhole, hSpan, -⟩
  rcases exists_standsFor_of_resolve hResolve (hRow.mem hLastMem) with
    ⟨lead', front', rest', -, hWhole', hSpan', -⟩
  have hBytes : byteLength front ≤ byteLength (front' ++ lead') := by
    have hStart : first.span.start = byteLength front := by rw [hSpan]
    have hStart' : last.span.start = byteLength front' := by rw [hSpan']
    have hInside : byteLength front' ≤ byteLength (front' ++ lead') := by simp
    rcases List.mem_cons.1 hLastMem with rfl | hBehind
    · omega
    · have hBefore := (List.pairwise_cons.1 hOrder).1 last hBehind
      omega
  have hBegin : front <+: source.toList := ⟨lead ++ rest, hWhole.symm⟩
  have hThrough : front' ++ lead' <+: source.toList := ⟨rest', by rw [hWhole', List.append_assoc]⟩
  rcases Text.prefix_of_byteLength_le hBegin hThrough hBytes with ⟨piece, hPiece⟩
  refine ⟨piece, Span.piece?_eq_some_iff.2 ⟨front, rest', ?_, ?_⟩⟩
  · rw [hWhole', ← List.append_assoc, ← hPiece, List.append_assoc]
  · rw [hSpan, hSpan', hPiece]

end Asm

end Chip8

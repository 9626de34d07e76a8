import Chip8.Proofs.Asm.Lexing
import Chip8.Proofs.Asm.Resolver

/-!
# What becomes of the tokens of a text

Resolving labels leaves the tokens of a text where they are. What an unknown identifier
becomes is told by the token behind it and by the other definitions in the text: in
front of a colon it defines a label, and elsewhere it refers to one if there is a
definition of its name, be it earlier or later. All other tokens stay as they are.

An illegal character is reported where the reader meets it. The reader goes from the
start of the text towards its end and does not get to the second pass then, so that this
is the first illegal character of the text.

## Main definitions

* `Located.IsAt` — where a token is written in a text.
* `Classified` — what becomes of a token.

## Main results

* `Reads.exists_symbol` — an illegal token is the character that it was read from.
* `classified_of_marked` — what the two passes make of a token.
* `Resolver.read_classifies` — reading any text, and reading it again.
-/

namespace Chip8.Asm

open Text (byteLength foldCase)

/-! ## Tokens in the text -/

/-- An illegal token is the character that it was read from. -/
theorem Reads.exists_symbol {lead rest : List Char} {symbol : String}
    (hReads : Reads lead rest (.illegal symbol)) :
    ∃ c, lead = [c] ∧ symbol = String.ofList [c] := by
  rcases hReads.exists_single_of_illegal with ⟨c, rfl⟩
  refine ⟨c, rfl, ?_⟩
  have hFolded : symbol = foldCase (String.ofList [c]) := hReads.literal rfl
  rcases Text.toLower_eq_self_or c with hSame | ⟨hLow, hHigh, -⟩
  · rw [hFolded]
    apply String.toList_inj.1
    rw [Text.toList_foldCase, String.toList_ofList, List.map_singleton, hSame]
  · -- A capital would have begun an identifier.
    have hWord : isWordStart c = true := by
      rw [← within_wordStart, within_cons]
      exact .inl ⟨hLow, hHigh⟩
    refine absurd ?_ (hReads.illegal_iff.1 ⟨symbol, rfl⟩ .identifier [c] (List.prefix_append _ _))
    exact LexicalRule.matches_identifier_iff.2 ⟨c, [], rfl, hWord, by simp⟩

/-- The token stands in the text where it is written with these characters. -/
def Located.IsAt (t : Located) (source : String) (lead : List Char) : Prop :=
  ∃ front rest, source.toList = front ++ (lead ++ rest) ∧
    t.span = ⟨byteLength front, byteLength (front ++ lead)⟩

/-- Every token that is read is written in the text. -/
theorem exists_isAt_of_mem_scan {source : String} {t : Located} (hMem : t ∈ (scan source).tokens) :
    ∃ lead rest, t.IsAt source lead ∧ Reads lead rest t.token := by
  have hTiled : Tiled 0 source.toList (scan source).tokens := tiled_scanFrom 0 source.toList
  rcases hTiled.exists_place hMem with ⟨front, lead, rest, hWhole, -, hSpan, hReads⟩
  simp only [Nat.zero_add] at hSpan
  exact ⟨lead, rest, ⟨front, rest, hWhole, hSpan⟩, hReads⟩

/-! ## What becomes of a token -/

/-- A colon follows the `k`-th token. -/
def ColonAfter (read : List Located) (k : Nat) : Prop :=
  ∃ colon, read[k + 1]? = some colon ∧ colon.token = .colon

/-- Some token defines the label. -/
def Defines (ts : List Located) (name : String) : Prop := ∃ d ∈ ts, d.token = .labelDef name

/-- What becomes of the `k`-th of the tokens that are read, when the tokens come out as
`resolved`. -/
structure Classified (read resolved : List Located) (k : Nat) (t u : Located) : Prop where
  span : u.span = t.span
  definition : ∀ name, t.token = .ident (.unknown name) →
    (u.token = .labelDef name ↔ ColonAfter read k)
  reference : ∀ name, t.token = .ident (.unknown name) → ¬ ColonAfter read k →
    (u.token = .labelRef name ↔ Defines resolved name)
  unknown : ∀ name, t.token = .ident (.unknown name) → ¬ ColonAfter read k →
    ¬ Defines resolved name → u.token = .ident (.unknown name)
  other : (∀ name, t.token ≠ .ident (.unknown name)) → u.token = t.token

/-- A token that is marked by the one behind it, and by the labels that are defined,
becomes what it should. -/
theorem classified_of_marked {read resolved : List Located} {names : Std.TreeSet String} {k : Nat}
    (hNames : ∀ name, name ∈ names ↔ Defines resolved name) (t : Located) :
    Classified read resolved k t (markReference names
      (markDefinition t ((read[k + 1]?.map (·.token)).getD .endOfInput))) := by
  have hColon : (read[k + 1]?.map (·.token)).getD .endOfInput = .colon ↔ ColonAfter read k := by
    unfold ColonAfter
    cases read[k + 1]? <;> simp
  generalize (read[k + 1]?.map (·.token)).getD .endOfInput = next at hColon ⊢
  cases hUnknown : t.token.unknown? with
  | none =>
      have hOther (name : String) : t.token ≠ .ident (.unknown name) := by
        rw [Ne, ← Token.unknown?_eq_some_iff, hUnknown]
        simp
      rw [markDefinition_of_known hUnknown, markReference_of_known hUnknown]
      exact ⟨rfl, fun _ h => absurd h (hOther _), fun _ h => absurd h (hOther _),
        fun _ h => absurd h (hOther _), fun _ => rfl⟩
  | some name =>
      have hToken := Token.unknown?_eq_some_iff.1 hUnknown
      rw [markDefinition_of_unknown hUnknown]
      by_cases hNext : next = .colon
      · have hAfter := hColon.1 hNext
        rw [if_pos hNext, markReference_of_known rfl]
        exact ⟨rfl, by simp [hToken, hAfter], by simp [hAfter], by simp [hAfter], by simp [hToken]⟩
      · have hAfter : ¬ ColonAfter read k := fun h => hNext (hColon.2 h)
        rw [if_neg hNext, markReference_of_unknown hUnknown]
        by_cases hListed : name ∈ names
        · have hDefined := (hNames name).1 hListed
          rw [if_pos (Std.TreeSet.contains_iff_mem.2 hListed)]
          exact ⟨rfl, by simp [hToken, hAfter], by simp [hToken, hDefined],
            by simp [hToken, hDefined], by simp [hToken]⟩
        · have hUndefined : ¬ Defines resolved name := fun h => hListed ((hNames name).2 h)
          rw [if_neg (fun h => hListed (Std.TreeSet.contains_iff_mem.1 h))]
          exact ⟨rfl, by simp [hToken, hAfter], by simp [hToken, hUndefined], by simp [hToken],
            fun _ => rfl⟩

/-! ## Reading a text -/

namespace Resolver

/-- A text without illegal characters is read to its end. The tokens are those of the
text, in their order and at their places. An unknown identifier, which carries its text
in small letters, becomes the definition of a label exactly if the next token is a
colon, and otherwise a reference exactly if some token defines its name. No other token
is changed, and the labels are the names that tokens define. Any other text is read up
to its first illegal character, and this is what the error says. Reading the text again
comes to the same, whatever has been read before. -/
theorem read_classifies (r : Resolver) :
    ((∀ t ∈ (scan r.source).tokens, t.token.illegal? = none) →
      ∃ r', r.read = (.ok (), r') ∧ r'.tokens.length = (scan r.source).throughEnd.length ∧
        (∀ k t, (scan r.source).throughEnd[k]? = some t → ∃ u, r'.tokens[k]? = some u ∧
          Classified (scan r.source).throughEnd r'.tokens k t u ∧
          ∀ name, t.token = .ident (.unknown name) →
            ∃ lead, t.IsAt r.source lead ∧ name = foldCase (String.ofList lead)) ∧
        ∀ name, name ∈ r'.labels ↔ Defines r'.tokens name) ∧
    ((¬ ∀ t ∈ (scan r.source).tokens, t.token.illegal? = none) →
      ∃ front t later c, (scan r.source).tokens = front ++ t :: later ∧
        (∀ u ∈ front, u.token.illegal? = none) ∧
        t.token = .illegal (String.ofList [c]) ∧ t.IsAt r.source [c] ∧
        r.read.1 = .error ⟨.illegalToken (String.ofList [c]), .single t.span⟩) ∧
    r.read.2.read = r.read ∧ ∀ other : Resolver, other.source = r.source → other.read = r.read := by
  refine ⟨fun hLegal => ?_, fun hIllegal => ?_, read_congr (source_read r), fun other => read_congr⟩
  · rcases read_of_legal hLegal with ⟨r', hRead, -, hTokens, hLabels⟩
    have hDefines (name : String) : name ∈ r'.labels ↔ Defines r'.tokens name := by
      simp only [hLabels, Token.definition?_eq_some_iff, Defines]
    refine ⟨r', hRead, ?_, fun k t hThere => ⟨_, ?_, classified_of_marked hDefines t, ?_⟩, hDefines⟩
    · rw [hTokens, List.length_map, length_markDefinitions]
    · conv_lhs => rw [hTokens]
      rw [List.getElem?_map, getElem?_markDefinitions, hThere]
      rfl
    · intro name hName
      rcases List.mem_append.1 (List.mem_of_getElem? hThere) with hMem | hEnd
      · rcases exists_isAt_of_mem_scan hMem with ⟨lead, rest, hIsAt, hReads⟩
        exact ⟨lead, hIsAt, hReads.literal (by rw [hName]; rfl)⟩
      · rw [List.mem_singleton.1 hEnd] at hName
        exact absurd hName (by simp [TokenStream.marker])
  · rcases legal_or_exists_first_illegal (scan r.source).tokens with
      hLegal | ⟨front, t, later, symbol, hText, hFront, hFirst⟩
    · exact absurd hLegal hIllegal
    · have hMem : t ∈ (scan r.source).tokens := by
        rw [hText]
        exact List.mem_append_right front List.mem_cons_self
      rcases exists_isAt_of_mem_scan hMem with ⟨lead, rest, hIsAt, hReads⟩
      rw [hFirst] at hReads
      rcases hReads.exists_symbol with ⟨c, rfl, rfl⟩
      rcases read_of_illegal hText hFront hFirst with ⟨r', hRead⟩
      exact ⟨front, t, later, c, hText, hFront, hFirst, hIsAt, congrArg Prod.fst hRead⟩

/-- A jump to itself. -/
def looping : Resolver := .start "a: jmp a"

/-- A text with two illegal characters. -/
def misspelt : Resolver := .start "ret $ @"

theorem read_classifies_looping :
    ((∀ t ∈ (scan looping.source).tokens, t.token.illegal? = none) ∧
      ∃ r' u, looping.read = (.ok (), r') ∧ r'.tokens[3]? = some u ∧ u.token = .labelRef "a" ∧
        u.span = ⟨7, 8⟩) ∧
    (¬ ∀ t ∈ (scan misspelt.source).tokens, t.token.illegal? = none) ∧
      misspelt.read.1 = .error ⟨.illegalToken "$", .single ⟨4, 5⟩⟩ := by
  refine ⟨?_, ?_⟩
  · have hLegal : ∀ t ∈ (scan looping.source).tokens, t.token.illegal? = none := by decide +kernel
    have hDefined : (scan looping.source).throughEnd[0]? =
        some ⟨.ident (.unknown "a"), ⟨0, 1⟩⟩ := by decide +kernel
    have hColon : (scan looping.source).throughEnd[1]? = some ⟨.colon, ⟨1, 2⟩⟩ := by decide +kernel
    have hUsed : (scan looping.source).throughEnd[3]? =
        some ⟨.ident (.unknown "a"), ⟨7, 8⟩⟩ := by decide +kernel
    have hEnd : (scan looping.source).throughEnd[4]? = some ⟨.endOfInput, ⟨8, 8⟩⟩ := by
      decide +kernel
    rcases (read_classifies looping).1 hLegal with ⟨r', hRead, -, hTokens, -⟩
    rcases hTokens 0 _ hDefined with ⟨d, hDefinition, hFirst, -⟩
    rcases hTokens 3 _ hUsed with ⟨u, hReference, hLast, -⟩
    have hDefines : Defines r'.tokens "a" :=
      ⟨d, List.mem_of_getElem? hDefinition, (hFirst.definition "a" rfl).2 ⟨_, hColon, rfl⟩⟩
    have hNoColon : ¬ ColonAfter (scan looping.source).throughEnd 3 := by
      rintro ⟨colon, hThere, hHere⟩
      obtain rfl := Option.some.inj (hEnd.symm.trans hThere)
      cases hHere
    exact ⟨hLegal, r', u, hRead, hReference, (hLast.reference "a" rfl hNoColon).2 hDefines,
      hLast.span⟩
  · have hIllegal : ¬ ∀ t ∈ (scan misspelt.source).tokens, t.token.illegal? = none := by
      decide +kernel
    have hScan : (scan misspelt.source).tokens = [⟨.ident (.keyword (.mnemonic .ret)), ⟨0, 3⟩⟩,
        ⟨.illegal "$", ⟨4, 5⟩⟩, ⟨.illegal "@", ⟨6, 7⟩⟩] := by decide +kernel
    rcases (read_classifies misspelt).2.1 hIllegal with
      ⟨front, t, later, c, hText, hFront, hFirst, -, hError⟩
    refine ⟨hIllegal, ?_⟩
    rw [hScan] at hText
    rcases front with _ | ⟨first, _ | ⟨second, front⟩⟩
    · obtain rfl := List.head_eq_of_cons_eq hText
      cases hFirst
    · obtain rfl := List.head_eq_of_cons_eq (List.tail_eq_of_cons_eq hText)
      rw [hError, ← Token.illegal.inj hFirst]
    · obtain rfl := List.head_eq_of_cons_eq (List.tail_eq_of_cons_eq hText)
      exact absurd (hFront _ (List.mem_cons_of_mem _ List.mem_cons_self)) (by decide)

end Resolver

end Chip8.Asm

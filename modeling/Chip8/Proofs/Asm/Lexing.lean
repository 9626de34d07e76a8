import Chip8.Proofs.Asm.LexicalRules
import Chip8.Proofs.Asm.Table

/-!
# Reading a text loses nothing

The tokens of a text lie in it one behind the other, each where it was read, and between
them there are only blanks. So every byte of a text is either part of exactly one token
or a blank, and each token is the longest match where it begins.

The tokens are taken off the front of the text. `Tiled` says what this leaves behind:
the text is a row of blanks and tokens. Everything about the places of tokens is read
off that row.

## Main definitions

* `Tiled` — the tokens of a text with nothing but blanks between them.
* `Found` — a token is what the text has at its place.
* `Lossless` — a row of tokens is all that there is in a text, blanks apart.

## Main results

* `tiled_scanFrom` — the reader lays a text out in tokens and blanks.
* `lossless_scan` — reading the tokens of any text loses nothing.
-/

namespace Chip8.Asm

open Text (byteLength)

/-! ## A text in tokens and blanks -/

/-- The characters that begin at an offset are made of the tokens, one behind the other,
with only blanks between them. -/
inductive Tiled : Nat → List Char → List Located → Prop where
  | done (start : Nat) : Tiled start [] []
  | blank {start : Nat} {c : Char} {cs : List Char} {tokens : List Located} (hBlank : c ∈ blanks)
      (hRest : Tiled (start + c.utf8Size) cs tokens) : Tiled start (c :: cs) tokens
  | token {start : Nat} {lead rest : List Char} {token : Token} {tokens : List Located}
      (hLead : lead ≠ []) (hReads : Reads lead rest token)
      (hRest : Tiled (start + byteLength lead) rest tokens) :
      Tiled start (lead ++ rest) (⟨token, ⟨start, start + byteLength lead⟩⟩ :: tokens)

/-- The reader lays a text out in tokens and blanks. -/
theorem tiled_scanFrom (start : Nat) (cs : List Char) : Tiled start cs (scanFrom start cs) := by
  fun_induction scanFrom start cs with
  | case1 start => exact .done start
  | case2 start c cs hBlank ih => exact .blank (mem_blanks_iff.2 hBlank) ih
  | case3 start c cs hBlank lead stop ih =>
      have hToken := Tiled.token (lexeme_ne_nil c cs) (reads_lexeme hBlank cs) ih
      rwa [lexeme_append_drop] at hToken

/-! ## Places -/

theorem byteLength_pos {cs : List Char} (hText : cs ≠ []) : 0 < byteLength cs := by
  rcases List.exists_cons_of_ne_nil hText with ⟨c, rest, rfl⟩
  exact Nat.add_pos_left c.utf8Size_pos (byteLength rest)

/-- The bytes of the blanks. -/
def blankBytes : List UInt8 := [0x20, 0x09, 0x0D, 0x0A]

/-- The offset lies in the span. -/
def Span.Contains (s : Span) (i : Nat) : Prop := s.start ≤ i ∧ i < s.stop

/-- A blank is one byte. -/
theorem utf8EncodeChar_of_mem_blanks {c : Char} (hBlank : c ∈ blanks) :
    c.utf8Size = 1 ∧ ∃ b ∈ blankBytes, String.utf8EncodeChar c = [b] := by
  rcases of_isSeparator (mem_blanks_iff.1 hBlank) with rfl | rfl | rfl | rfl
  · exact ⟨rfl, 0x20, by decide, rfl⟩
  · exact ⟨rfl, 0x09, by decide, rfl⟩
  · exact ⟨rfl, 0x0D, by decide, rfl⟩
  · exact ⟨rfl, 0x0A, by decide, rfl⟩

namespace Tiled

variable {start : Nat} {cs : List Char} {tokens : List Located} {t : Located}

/-- Every token has its place among the characters. -/
theorem exists_place (hTiled : Tiled start cs tokens) (hMem : t ∈ tokens) :
    ∃ front lead rest, cs = front ++ (lead ++ rest) ∧ lead ≠ [] ∧
      t.span = ⟨start + byteLength front, start + byteLength (front ++ lead)⟩ ∧
      Reads lead rest t.token := by
  induction hTiled with
  | done => cases hMem
  | @blank start c cs tokens hBlank hRest ih =>
      rcases ih hMem with ⟨front, lead, rest, rfl, hLead, hSpan, hReads⟩
      refine ⟨c :: front, lead, rest, rfl, hLead, ?_, hReads⟩
      rw [hSpan, List.cons_append, Text.byteLength_cons, Text.byteLength_cons, Nat.add_assoc,
        Nat.add_assoc]
  | @token start lead rest token tokens hLead hReads hRest ih =>
      rcases List.mem_cons.1 hMem with rfl | hMem
      · exact ⟨[], lead, rest, rfl, hLead, rfl, hReads⟩
      · rcases ih hMem with ⟨front, lead', rest', rfl, hLead', hSpan, hReads'⟩
        refine ⟨lead ++ front, lead', rest', by simp, hLead', ?_, hReads'⟩
        rw [hSpan, List.append_assoc, Text.byteLength_append lead, Text.byteLength_append lead,
          Nat.add_assoc, Nat.add_assoc]

/-- Every token takes at least one byte, and lies within the characters. -/
theorem span_bounds (hTiled : Tiled start cs tokens) (hMem : t ∈ tokens) :
    start ≤ t.span.start ∧ t.span.start < t.span.stop ∧
      t.span.stop ≤ start + byteLength cs := by
  rcases hTiled.exists_place hMem with ⟨front, lead, rest, rfl, hLead, hSpan, -⟩
  have hPositive := byteLength_pos hLead
  simp only [hSpan, Text.byteLength_append]
  omega

/-- Each token begins where the ones in front of it have ended. -/
theorem pairwise (hTiled : Tiled start cs tokens) :
    tokens.Pairwise fun a b => a.span.start < b.span.start ∧ a.span.stop ≤ b.span.start := by
  induction hTiled with
  | done => exact .nil
  | blank hBlank hRest ih => exact ih
  | @token start lead rest token tokens hLead hReads hRest ih =>
      refine .cons (fun t hMem => ?_) ih
      have hBehind := (hRest.span_bounds hMem).1
      have hPositive := byteLength_pos hLead
      exact ⟨Nat.lt_of_lt_of_le (Nat.lt_add_of_pos_right hPositive) hBehind, hBehind⟩

/-- A byte that no token has is the byte of a blank. -/
theorem mem_blankBytes (hTiled : Tiled start cs tokens) {i : Nat} {b : UInt8}
    (hByte : (cs.flatMap String.utf8EncodeChar)[i]? = some b)
    (hOutside : ∀ t ∈ tokens, ¬ t.span.Contains (start + i)) : b ∈ blankBytes := by
  induction hTiled generalizing i with
  | done => simp at hByte
  | @blank start c cs tokens hBlank hRest ih =>
      rcases utf8EncodeChar_of_mem_blanks hBlank with ⟨hSize, blank, hBlankByte, hEncoded⟩
      rw [List.flatMap_cons, hEncoded] at hByte
      cases i with
      | zero => exact Option.some.inj hByte ▸ hBlankByte
      | succ i =>
          refine ih hByte fun t hMem => ?_
          rw [hSize, Nat.add_assoc, Nat.add_comm 1]
          exact hOutside t hMem
  | @token start lead rest token tokens hLead hReads hRest ih =>
      have hBehind : byteLength lead ≤ i := by
        by_contra hInside
        refine hOutside _ List.mem_cons_self ⟨Nat.le_add_right start i, ?_⟩
        exact Nat.add_lt_add_left (Nat.lt_of_not_le hInside) start
      rw [List.flatMap_append, List.getElem?_append_right, length_flatMap_utf8EncodeChar] at hByte
      · refine ih hByte fun t hMem => ?_
        rw [Nat.add_assoc, Nat.add_sub_cancel' hBehind]
        exact hOutside t (List.mem_cons_of_mem _ hMem)
      · rw [length_flatMap_utf8EncodeChar]
        exact hBehind

end Tiled

/-! ## The tokens of a text -/

/-- The token was read behind `front`, where it is written as `lead` and followed by
`rest`. -/
structure Found (source : String) (t : Located) (front lead rest : List Char) : Prop where
  whole : source.toList = front ++ (lead ++ rest)
  /-- The token begins and ends between characters. -/
  span : t.span = ⟨byteLength front, byteLength (front ++ lead)⟩
  /-- It is the longest match. -/
  reads : Reads lead rest t.token
  /-- It carries its own text in small letters. -/
  literal : ∀ text, t.token.literal? = some text → text = Text.foldCase (String.ofList lead)
  /-- Of numbers, those with an `x` are hexadecimal. -/
  hex : ∀ digits, t.token = .hex digits ∨ t.token = .decimal digits →
    (t.token = .hex digits ↔ 'x' ∈ lead ∨ 'X' ∈ lead)
  /-- Of identifiers, those in the table are keywords. -/
  keyword : ∀ k, t.token = .ident (.keyword k) ↔ (∃ id, t.token = .ident id) ∧
    (Text.foldCase (String.ofList lead), k) ∈ Keyword.spellings
  /-- The register `I` has two spellings. -/
  index : t.token = .ident (.keyword (.special .index)) ↔ (∃ id, t.token = .ident id) ∧
    (Text.foldCase (String.ofList lead) = "adp" ∨ Text.foldCase (String.ofList lead) = "i")
  /-- The token is illegal where no rule matches. -/
  illegal : (∃ symbol, t.token = .illegal symbol) ↔
    ∀ (r : LexicalRule) (other : List Char), other <+: lead ++ rest → ¬ r.Matches other
  single : ∀ symbol, t.token = .illegal symbol → ∃ c, lead = [c]
  /-- There are blanks in comments only. -/
  clean : t.token ≠ .comment → ∀ c ∈ lead, c ∉ blanks

/-- The tokens are all that there is in the text, blanks apart. -/
structure Lossless (source : String) (s : TokenStream) : Prop where
  /-- Each token begins behind the ones in front of it. -/
  ordered : s.tokens.Pairwise fun a b =>
    a.span.start < b.span.start ∧ a.span.stop ≤ b.span.start
  /-- Each token has bytes of the text. -/
  bounds : ∀ t ∈ s.tokens,
    t.span.start < t.span.stop ∧ t.span.stop ≤ (Text.toUtf8 source).length
  found : ∀ t ∈ s.tokens, ∃ front lead rest, Found source t front lead rest
  /-- What is in no token is blank. -/
  blank : ∀ i b, (Text.toUtf8 source)[i]? = some b →
    (∀ t ∈ s.tokens, ¬ t.span.Contains i) → b ∈ blankBytes
  /-- The tokens are read in order, and none of them is the end of the text. -/
  next : ∀ i t, s.tokens[i]? = some t → s.read i = t ∧ t.token ≠ .endOfInput
  /-- From then on only the end is read. -/
  ended : ∀ i, s.tokens.length ≤ i →
    s.read i = ⟨.endOfInput, ⟨(Text.toUtf8 source).length, (Text.toUtf8 source).length⟩⟩

/-- Reading the tokens of any text loses nothing, and each token is the longest
match. -/
theorem lossless_scan (source : String) : Lossless source (scan source) := by
  have hTiled : Tiled 0 source.toList (scan source).tokens := tiled_scanFrom 0 source.toList
  refine ⟨hTiled.pairwise, fun t hMem => ?_, fun t hMem => ?_, fun i b hByte hOutside => ?_,
    fun i t hThere => ⟨?_, ?_⟩, fun i hBehind => ?_⟩
  · have hBounds := hTiled.span_bounds hMem
    rw [length_toUtf8]
    omega
  · rcases hTiled.exists_place hMem with ⟨front, lead, rest, hWhole, -, hSpan, hReads⟩
    simp only [Nat.zero_add] at hSpan
    exact ⟨front, lead, rest, hWhole, hSpan, hReads, fun _ => hReads.literal,
      fun _ => hReads.hex_iff, fun _ => hReads.keyword_iff, hReads.index_iff, hReads.illegal_iff,
      fun _ hIllegal => (hIllegal ▸ hReads).exists_single_of_illegal, hReads.notMem_blanks⟩
  · rw [toUtf8_eq_flatMap] at hByte
    refine hTiled.mem_blankBytes hByte fun t hMem => ?_
    rw [Nat.zero_add]
    exact hOutside t hMem
  · rw [TokenStream.read, hThere]
    rfl
  · rcases hTiled.exists_place (List.mem_of_getElem? hThere) with
      ⟨front, lead, rest, -, -, -, hReads⟩
    exact hReads.ne_endOfInput
  · rw [TokenStream.read_of_length_le hBehind, length_toUtf8]
    rfl

example : scan "JMP start" =
    ⟨[⟨.ident (.keyword (.mnemonic .jmp)), ⟨0, 3⟩⟩, ⟨.ident (.unknown "start"), ⟨4, 9⟩⟩], 9⟩ := by
  decide +kernel

end Chip8.Asm

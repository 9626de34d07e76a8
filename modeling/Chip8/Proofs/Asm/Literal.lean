import Chip8.Asm.Encoding
import Chip8.Asm.Lexeme
import Chip8.Proofs.Text.Folding
import Mathlib.Data.Nat.Digits.Defs

/-!
# What literals denote

A literal of assembly text denotes a natural number, in base ten or, behind `0x`, in
base sixteen. That number is defined here in positional notation and without any bound
(`numberOf?`), whereas the assembler reads digit by digit into a word of 16 bits and
gives up at the first fault (`readWord`). The two agree wherever a field of an
instruction word can tell: a literal is read as the value of a field exactly if it
denotes a number that the field can hold.

The word reader accepts one leading plus sign, which no literal of a text has; hence the
condition `Token.Unsigned`, which every scanned token meets.

## Main definitions

* `Text.numberOf?`, `Token.number?` — the number that digits, or a literal, denote.
* `Token.Unsigned` — a literal has no sign.
* `Text.Overflows`, `Token.TooLarge` — what is too large for a word, or for a field.

## Main results

* `accumulate_eq_ok_iff`, `readWord_eq_ok_iff_signed`, `readWord_eq_ok_iff` — reading
  digits against their number.
* `readWord_eq_overflow_iff` — reading digits that denote too large a number.
* `readValue_eq_ok_iff`, `readValue_error_cases` — reading a literal as the value of a
  field against its number.
* `unsigned_of_mem_scan` — the literals of a text have no signs.
-/

namespace Chip8.Text

/-- The number that digits denote in positional notation; there must be at least one. -/
def numberOf? (radix : Nat) (cs : List Char) : Option Nat :=
  if cs = [] then none else (cs.mapM (digit? radix)).map fun ds => Nat.ofDigits radix ds.reverse

/-- The value of digits behind a prefix that denotes `value`. -/
def continued (radix value : Nat) (ds : List Nat) : Nat :=
  ds.foldl (fun v d => v * radix + d) value

theorem le_continued {radix : Nat} (hPos : 0 < radix) (value : Nat) (ds : List Nat) :
    value ≤ continued radix value ds := by
  induction ds generalizing value with
  | nil => exact Nat.le_refl _
  | cons d ds ih =>
      have hMul : value ≤ value * radix := Nat.le_mul_of_pos_right value hPos
      exact Nat.le_trans (by omega) (ih (value * radix + d))

/-- Digits from the left make up the positional value. -/
theorem ofDigits_reverse (radix : Nat) (ds : List Nat) :
    Nat.ofDigits radix ds.reverse = continued radix 0 ds := by
  rw [Nat.ofDigits_eq_foldr, List.foldr_reverse, continued]
  congr 1
  funext v d
  show d + radix * v = v * radix + d
  rw [Nat.mul_comm, Nat.add_comm]

/-- The values of digits, the first one apart. -/
theorem mapM_digit?_cons {radix d : Nat} {c : Char} (hc : digit? radix c = some d) {cs : List Char}
    {ds : List Nat} : (c :: cs).mapM (digit? radix) = some ds ↔
      ∃ rest, cs.mapM (digit? radix) = some rest ∧ d :: rest = ds := by
  simp [List.mapM_cons, hc, Option.bind_eq_some_iff]

/-- Reading digits succeeds exactly if all of them are digits of the radix and the
number that they make up fits in a word. A partial number is never larger than the whole
one, so that giving up early loses nothing. -/
theorem accumulate_eq_ok_iff {radix : Nat} (hPos : 0 < radix) {value n : Nat} {cs : List Char}
    (hSmall : value < 65536) :
    accumulate radix value cs = .ok n ↔
      ∃ ds, cs.mapM (digit? radix) = some ds ∧ continued radix value ds = n ∧ n < 65536 := by
  induction cs generalizing value with
  | nil =>
      simp only [accumulate, List.mapM_nil, Except.ok.injEq]
      constructor
      · rintro rfl
        exact ⟨[], rfl, rfl, hSmall⟩
      · intro hGiven
        rcases hGiven with ⟨ds, hds, hn, -⟩
        obtain rfl : [] = ds := Option.some.inj hds
        exact hn
  | cons c cs ih =>
      rw [accumulate]
      cases hc : digit? radix c with
      | none => simp [List.mapM_cons, hc]
      | some d =>
          simp only [mapM_digit?_cons hc]
          split
          · rename_i hstep
            rw [ih hstep]
            constructor
            · intro hGiven
              rcases hGiven with ⟨rest, hRest, hn⟩
              exact ⟨d :: rest, ⟨rest, hRest, rfl⟩, hn⟩
            · intro hGiven
              rcases hGiven with ⟨ds, ⟨rest, hRest, rfl⟩, hn⟩
              exact ⟨rest, hRest, hn⟩
          · rename_i hOver
            simp only [reduceCtorEq, false_iff]
            intro hGiven
            rcases hGiven with ⟨ds, ⟨rest, -, rfl⟩, hn, hLt⟩
            have hLe := le_continued hPos (value * radix + d) rest
            have hn' : continued radix (value * radix + d) rest = n := hn
            omega

/-- Digits are read as a word exactly if they denote the number of the word. -/
theorem map_accumulate_eq_ok_iff {radix : Nat} (hPos : 0 < radix) {cs : List Char} (hNe : cs ≠ [])
    {word : UInt16} :
    (accumulate radix 0 cs).map UInt16.ofNat = .ok word ↔
      numberOf? radix cs = some word.toNat := by
  have hWord : ∀ n, n < 65536 → (UInt16.ofNat n = word ↔ n = word.toNat) := by
    intro n hn
    rw [← UInt16.toNat_inj, UInt16.toNat_ofNat', Nat.mod_eq_of_lt hn]
  rw [numberOf?, if_neg hNe]
  simp only [Option.map_eq_some_iff, ofDigits_reverse]
  constructor
  · intro h
    cases hRead : accumulate radix 0 cs with
    | error fault => simp [hRead, Except.map] at h
    | ok n =>
        obtain ⟨ds, hds, hn, hLt⟩ := (accumulate_eq_ok_iff hPos (by omega)).1 hRead
        rw [hRead] at h
        refine ⟨ds, hds, ?_⟩
        rw [hn]
        exact (hWord n hLt).1 (Except.ok.inj h)
  · intro hGiven
    rcases hGiven with ⟨ds, hds, hn⟩
    have hLt := word.toNat_lt
    have hRead := (accumulate_eq_ok_iff hPos (by omega)).2 ⟨ds, hds, hn, hLt⟩
    rw [hRead]
    exact congrArg Except.ok ((hWord _ hLt).2 rfl)

/-- A text is read as a word exactly if it denotes the number of the word, or if what
stands behind a plus sign does. -/
theorem readWord_eq_ok_iff_signed {radix : Nat} (hPos : 0 < radix) {cs : List Char}
    {word : UInt16} :
    readWord radix cs = .ok word ↔
      numberOf? radix cs = some word.toNat ∨
        ∃ digits, cs = '+' :: digits ∧ numberOf? radix digits = some word.toNat := by
  cases cs with
  | nil => simp [readWord, numberOf?]
  | cons c cs =>
      rw [readWord]
      by_cases hSign : c = '+' ∧ cs ≠ []
      · obtain ⟨rfl, hNe⟩ := hSign
        have hNone : numberOf? radix ('+' :: cs) = none := by
          simp [numberOf?, List.mapM_cons, digit?]
        rw [if_pos ⟨rfl, hNe⟩, map_accumulate_eq_ok_iff hPos hNe, hNone]
        simp
      · rw [if_neg hSign, map_accumulate_eq_ok_iff hPos (List.cons_ne_nil c cs)]
        refine ⟨.inl, ?_⟩
        rintro (hNumber | ⟨digits, hcs, hNumber⟩)
        · exact hNumber
        · obtain ⟨rfl, rfl⟩ := List.cons.inj hcs
          have hEmpty : cs = [] := by simpa using hSign
          simp [hEmpty, numberOf?] at hNumber

/-- A text without a sign is read as a word exactly if it denotes the number of the
word. -/
theorem readWord_eq_ok_iff {radix : Nat} (hPos : 0 < radix) {cs : List Char} (hSign : '+' ∉ cs)
    {word : UInt16} : readWord radix cs = .ok word ↔ numberOf? radix cs = some word.toNat := by
  rw [readWord_eq_ok_iff_signed hPos]
  refine ⟨?_, .inl⟩
  rintro (hNumber | ⟨digits, rfl, -⟩)
  · exact hNumber
  · simp at hSign

/-- Already some of the first digits denote a number that no word holds. -/
def Overflows (radix : Nat) (cs : List Char) : Prop :=
  ∃ front n, front <+: cs ∧ numberOf? radix front = some n ∧ 65536 ≤ n

/-- Reading digits overflows exactly if some of the first ones make up a number that is
too large. The digits behind them are not looked at. -/
theorem accumulate_eq_overflow_iff {radix value : Nat} {cs : List Char} (hSmall : value < 65536) :
    accumulate radix value cs = .error .overflow ↔
      ∃ front ds, front <+: cs ∧ front.mapM (digit? radix) = some ds ∧
        65536 ≤ continued radix value ds := by
  have hNil : ∀ v, v < 65536 → ∀ ds, ([] : List Char).mapM (digit? radix) = some ds →
      ¬ 65536 ≤ continued radix v ds := by
    intro v hv ds hds
    obtain rfl : [] = ds := Option.some.inj hds
    exact Nat.not_le.2 hv
  induction cs generalizing value with
  | nil =>
      simp only [accumulate, reduceCtorEq, false_iff]
      rintro ⟨front, ds, hFront, hds, hLarge⟩
      obtain rfl := List.prefix_nil.1 hFront
      exact hNil value hSmall ds hds hLarge
  | cons c cs ih =>
      rw [accumulate]
      cases hc : digit? radix c with
      | none =>
          simp only [Except.error.injEq, reduceCtorEq, false_iff]
          rintro ⟨front, ds, hFront, hds, hLarge⟩
          rcases List.prefix_cons_iff.1 hFront with rfl | ⟨rest, rfl, -⟩
          · exact hNil value hSmall ds hds hLarge
          · simp [List.mapM_cons, hc] at hds
      | some d =>
          dsimp only
          split
          · rename_i hstep
            refine (ih hstep).trans ?_
            constructor
            · rintro ⟨front, ds, hFront, hds, hLarge⟩
              exact ⟨c :: front, d :: ds, List.cons_prefix_cons.2 ⟨rfl, hFront⟩,
                (mapM_digit?_cons hc).2 ⟨ds, hds, rfl⟩, hLarge⟩
            · rintro ⟨front, ds, hFront, hds, hLarge⟩
              rcases List.prefix_cons_iff.1 hFront with rfl | ⟨rest, rfl, hRest⟩
              · exact absurd hLarge (hNil value hSmall ds hds)
              · obtain ⟨more, hMore, rfl⟩ := (mapM_digit?_cons hc).1 hds
                exact ⟨rest, more, hRest, hMore, hLarge⟩
          · rename_i hOver
            refine iff_of_true rfl ⟨[c], [d], List.cons_prefix_cons.2 ⟨rfl, List.nil_prefix⟩,
              (mapM_digit?_cons hc).2 ⟨[], rfl, rfl⟩, ?_⟩
            exact Nat.not_lt.1 hOver

/-- Reading a text without a sign overflows exactly if some of the first digits denote a
number that no word holds. -/
theorem readWord_eq_overflow_iff {radix : Nat} {cs : List Char} (hSign : '+' ∉ cs) :
    readWord radix cs = .error .overflow ↔ Overflows radix cs := by
  have hRead : readWord radix cs = .error .overflow ↔ accumulate radix 0 cs = .error .overflow := by
    cases cs with
    | nil => simp [readWord, accumulate]
    | cons c cs =>
        have hPlus : ¬ (c = '+' ∧ cs ≠ []) := by
          rintro ⟨rfl, -⟩
          exact hSign List.mem_cons_self
        rw [readWord, if_neg hPlus]
        cases accumulate radix 0 (c :: cs) <;> simp [Except.map]
  rw [hRead, accumulate_eq_overflow_iff (by omega)]
  constructor
  · rintro ⟨front, ds, hFront, hds, hLarge⟩
    have hNe : front ≠ [] := by
      rintro rfl
      obtain rfl : [] = ds := Option.some.inj hds
      simp [continued] at hLarge
    refine ⟨front, continued radix 0 ds, hFront, ?_, hLarge⟩
    rw [numberOf?, if_neg hNe, hds, Option.map_some, ofDigits_reverse]
  · rintro ⟨front, n, hFront, hNumber, hLarge⟩
    unfold numberOf? at hNumber
    split at hNumber
    · simp at hNumber
    · obtain ⟨ds, hds, hValue⟩ := Option.map_eq_some_iff.1 hNumber
      rw [ofDigits_reverse] at hValue
      exact ⟨front, ds, hFront, hds, hValue ▸ hLarge⟩

/-- A text without a sign that is malformed denotes no number. -/
theorem numberOf?_eq_none_of_malformed {radix : Nat} (hPos : 0 < radix) {cs : List Char}
    (hSign : '+' ∉ cs) (hRead : readWord radix cs = .error .malformed) :
    numberOf? radix cs = none := by
  cases hNumber : numberOf? radix cs with
  | none => rfl
  | some n =>
      by_cases hSmall : n < 65536
      · have hWord : (UInt16.ofNat n).toNat = n := by
          rw [UInt16.toNat_ofNat', Nat.mod_eq_of_lt hSmall]
        have hOk := (readWord_eq_ok_iff hPos hSign).2 (hWord.symm ▸ hNumber)
        exact absurd (hRead.symm.trans hOk) (by simp)
      · have hOver : Overflows radix cs := ⟨cs, n, List.prefix_rfl, hNumber, Nat.not_lt.1 hSmall⟩
        have hLarge := (readWord_eq_overflow_iff hSign).2 hOver
        exact absurd (hRead.symm.trans hLarge) (by simp)

/-- A written numeral denotes its number, whatever zeros stand in front. -/
theorem numberOf?_numeral {radix n : Nat} (hLt : 1 < radix) (hLe : radix ≤ 16) (hn : n < 65536)
    (zeros : Nat) :
    numberOf? radix (List.replicate zeros '0' ++ numeral radix n) = some n := by
  have hRead : accumulate radix 0 (List.replicate zeros '0' ++ numeral radix n) = .ok n := by
    rw [accumulate_replicate_zero (by omega) hLe, accumulate_numeral hLt hLe hn]
  obtain ⟨ds, hds, hValue, -⟩ := (accumulate_eq_ok_iff (by omega) (by omega)).1 hRead
  rw [numberOf?, if_neg (by simp [numeral_ne_nil]), hds, Option.map_some, ofDigits_reverse, hValue]

/-- A number is made of digits. -/
theorem digit?_isSome_of_numberOf? {radix n : Nat} {cs : List Char}
    (h : numberOf? radix cs = some n) : ∀ c ∈ cs, (digit? radix c).isSome := by
  unfold numberOf? at h
  split at h
  · simp at h
  · obtain ⟨ds, hds, -⟩ := Option.map_eq_some_iff.1 h
    clear h
    induction cs generalizing ds with
    | nil => simp
    | cons d cs ih =>
        rename_i hNe
        intro c hc
        rw [List.mapM_cons] at hds
        obtain ⟨v, hv, hds⟩ := Option.bind_eq_some_iff.1 hds
        obtain ⟨rest, hRest, -⟩ := Option.bind_eq_some_iff.1 hds
        rcases List.mem_cons.1 hc with rfl | hc
        · simp [hv]
        · exact ih (List.ne_nil_of_mem hc) rest hRest c hc

private theorem lt_of_digit? {radix d : Nat} {c : Char} (h : digit? radix c = some d) :
    d < radix := by
  simp only [digit?, Option.ite_none_right_eq_some, Option.some.injEq] at h
  obtain ⟨hLt, rfl⟩ := h
  exact hLt

/-- There is a value for each digit, and none is as large as the radix. -/
theorem values_of_mapM_digit? {radix : Nat} {cs : List Char} {ds : List Nat}
    (h : cs.mapM (digit? radix) = some ds) : ds.length = cs.length ∧ ∀ d ∈ ds, d < radix := by
  induction cs generalizing ds with
  | nil =>
      obtain rfl : [] = ds := Option.some.inj h
      simp
  | cons c cs ih =>
      rw [List.mapM_cons] at h
      obtain ⟨d, hd, h⟩ := Option.bind_eq_some_iff.1 h
      obtain ⟨rest, hRest, hCons⟩ := Option.bind_eq_some_iff.1 h
      obtain rfl : d :: rest = ds := Option.some.inj hCons
      obtain ⟨hLength, hAll⟩ := ih hRest
      exact ⟨congrArg (· + 1) hLength, List.forall_mem_cons.2 ⟨lt_of_digit? hd, hAll⟩⟩

/-- A number needs no more digits than those that it is written with. -/
theorem numberOf?_lt {radix n : Nat} (hLt : 1 < radix) {cs : List Char}
    (h : numberOf? radix cs = some n) : n < radix ^ cs.length := by
  unfold numberOf? at h
  split at h
  · simp at h
  · obtain ⟨ds, hds, rfl⟩ := Option.map_eq_some_iff.1 h
    obtain ⟨hLength, hAll⟩ := values_of_mapM_digit? hds
    rw [← hLength, ← List.length_reverse]
    exact Nat.ofDigits_lt_base_pow_length hLt fun d hd => hAll d (List.mem_reverse.1 hd)

/-- Digits have no sign among them. -/
theorem plus_notMem_of_numberOf? {radix n : Nat} {cs : List Char}
    (h : numberOf? radix cs = some n) : '+' ∉ cs := by
  intro hPlus
  have hDigit := digit?_isSome_of_numberOf? h '+' hPlus
  simp [digit?] at hDigit

/-- A digit has one value in either letter case. -/
theorem digit?_toLower (radix : Nat) (c : Char) : digit? radix c.toLower = digit? radix c := by
  rcases toLower_eq_self_or c with hSame | ⟨hLow, hHigh, hLower⟩
  · rw [hSame]
  · have hCodes : '0'.toNat = 48 ∧ '9'.toNat = 57 ∧ 'a'.toNat = 97 ∧ 'z'.toNat = 122 ∧
        'A'.toNat = 65 ∧ 'Z'.toNat = 90 := by decide
    obtain ⟨h0, h9, ha, hz, hA, hZ⟩ := hCodes
    simp only [digit?, h0, h9, ha, hz, hA, hZ, hLower]
    split_ifs <;> first | omega | rfl

/-- Letter case does not matter for the number that digits denote. -/
theorem numberOf?_map_toLower (radix : Nat) (cs : List Char) :
    numberOf? radix (cs.map Char.toLower) = numberOf? radix cs := by
  have hSame : digit? radix ∘ Char.toLower = digit? radix := funext (digit?_toLower radix)
  simp [numberOf?, List.mapM_map, hSame]

end Chip8.Text

namespace Chip8.Asm

/-! ## Literals as tokens -/

/-- The number that a literal denotes. -/
def Token.number? : Token → Option Nat
  | .decimal digits => Text.numberOf? 10 digits.toList
  | .hex digits => (Text.after? ['0', 'x'] digits.toList).bind (Text.numberOf? 16)
  | _ => none

/-- A literal without a sign. -/
def Token.Unsigned : Token → Prop
  | .decimal digits => '+' ∉ digits.toList
  | .hex digits => '+' ∉ digits.toList
  | _ => True

/-- A literal is read as a word exactly if it denotes the number of the word. -/
theorem readNumber_eq_ok_iff {bits : Nat} {t : Located} (hSign : t.token.Unsigned)
    {word : UInt16} : readNumber bits t = .ok word ↔ t.token.number? = some word.toNat := by
  unfold readNumber
  cases ht : t.token with
  | decimal digits =>
      rw [ht] at hSign
      rw [Token.number?, ← Text.readWord_eq_ok_iff (by omega) hSign]
      dsimp only
      rcases Text.readWord 10 digits.toList with (_ | _) | w <;> simp
  | hex digits =>
      rw [ht] at hSign
      rw [Token.number?]
      dsimp only
      cases hRest : Text.after? ['0', 'x'] digits.toList with
      | none => simp
      | some rest =>
          have hDigits := Text.after?_eq_some_iff.1 hRest
          have hPlus : '+' ∉ rest := fun h => hSign (by simp [hDigits, h])
          rw [Option.bind_some, ← Text.readWord_eq_ok_iff (by omega) hPlus]
          dsimp only
          rcases Text.readWord 16 rest with (_ | _) | w <;> simp
  | _ => simp [Token.number?]

/-- A literal is read as the value of a field exactly if it denotes that value. -/
theorem readValue_eq_ok_iff {bits : Nat} {t : Located} (hSign : t.token.Unsigned)
    {f : Field bits} : readValue bits t = .ok f ↔ t.token.number? = some f.value.toNat := by
  have hNumber : readNumber bits t = .ok f.value ↔ t.token.number? = some f.value.toNat :=
    readNumber_eq_ok_iff hSign
  rw [← hNumber]
  unfold readValue
  cases hRead : readNumber bits t with
  | error e => simp
  | ok word =>
      simp only [Field.ofWord, Except.ok.injEq]
      split
      · rename_i field hField
        split at hField
        · obtain rfl := Except.ok.inj hField
          cases f
          simp
        · simp at hField
      · rename_i e hField
        split at hField
        · simp at hField
        · rename_i hBig
          simp only [reduceCtorEq, false_iff]
          rintro rfl
          exact hBig f.fits

/-- Already some of the first digits of a literal denote a number that no word holds. -/
def Token.Overflows : Token → Prop
  | .decimal digits => Text.Overflows 10 digits.toList
  | .hex digits => ∃ rest, Text.after? ['0', 'x'] digits.toList = some rest ∧ Text.Overflows 16 rest
  | _ => False

/-- A literal is too large for a field of `bits` bits, or for any word. -/
def Token.TooLarge (bits : Nat) (token : Token) : Prop :=
  token.Overflows ∨ ∃ n, token.number? = some n ∧ fieldSize bits ≤ n

/-- A literal that is not read as a word is misspelt, or it overflows. -/
theorem readNumber_error_cases {bits : Nat} {t : Located} (hSign : t.token.Unsigned)
    {digits : String} (ht : t.token = .decimal digits ∨ t.token = .hex digits) {e : AssemblyError}
    (h : readNumber bits t = .error e) :
    (e = .single (.invalidNumber digits) t.span ∧ t.token.number? = none) ∨
      (e = .single (.overflow ⟨bits⟩) t.span ∧ t.token.Overflows) := by
  unfold readNumber at h
  rcases ht with ht | ht
  · rw [ht] at hSign h ⊢
    dsimp only at h
    split at h
    · simp at h
    · rename_i hRead
      exact .inl ⟨(Except.error.inj h).symm,
        Text.numberOf?_eq_none_of_malformed (by omega) hSign hRead⟩
    · rename_i hRead
      exact .inr ⟨(Except.error.inj h).symm, (Text.readWord_eq_overflow_iff hSign).1 hRead⟩
  · rw [ht] at hSign h ⊢
    dsimp only at h
    cases hRest : Text.after? ['0', 'x'] digits.toList with
    | none =>
        rw [hRest] at h
        exact .inl ⟨(Except.error.inj h).symm, by rw [Token.number?, hRest, Option.bind_none]⟩
    | some rest =>
        have hDigits := Text.after?_eq_some_iff.1 hRest
        have hPlus : '+' ∉ rest := fun hMem => hSign (by simp [hDigits, hMem])
        rw [hRest] at h
        dsimp only at h
        split at h
        · simp at h
        · rename_i hRead
          refine .inl ⟨(Except.error.inj h).symm, ?_⟩
          rw [Token.number?, hRest, Option.bind_some]
          exact Text.numberOf?_eq_none_of_malformed (by omega) hPlus hRead
        · rename_i hRead
          exact .inr ⟨(Except.error.inj h).symm, rest, hRest,
            (Text.readWord_eq_overflow_iff hPlus).1 hRead⟩

/-- A word that is not the value of a field is too large for it. -/
theorem readValue_error_of_readNumber {bits : Nat} {t : Located} {word : UInt16} {e : AssemblyError}
    (hWord : readNumber bits t = .ok word) (h : readValue bits t = .error e) :
    e = .single (.overflow ⟨bits⟩) t.span ∧ fieldSize bits ≤ word.toNat := by
  simp only [readValue, hWord, Field.ofWord] at h
  split at h
  · simp at h
  · rename_i overflow hField
    split at hField
    · simp at hField
    · rename_i hBig
      obtain rfl := Except.error.inj hField
      exact ⟨(Except.error.inj h).symm, Nat.not_lt.1 hBig⟩

/-- A literal that is not read as the value of a field is misspelt, or it is too
large. -/
theorem readValue_error_cases {bits : Nat} {t : Located} (hSign : t.token.Unsigned)
    {digits : String} (ht : t.token = .decimal digits ∨ t.token = .hex digits) {e : AssemblyError}
    (h : readValue bits t = .error e) :
    (e = .single (.invalidNumber digits) t.span ∧ t.token.number? = none) ∨
      (e = .single (.overflow ⟨bits⟩) t.span ∧ t.token.TooLarge bits) := by
  cases hRead : readNumber bits t with
  | error other =>
      obtain rfl : other = e := by
        rw [readValue, hRead] at h
        exact Except.error.inj h
      rcases readNumber_error_cases hSign ht hRead with hMisspelt | ⟨he, hOver⟩
      · exact .inl hMisspelt
      · exact .inr ⟨he, .inl hOver⟩
  | ok word =>
      obtain ⟨he, hLarge⟩ := readValue_error_of_readNumber hRead h
      exact .inr ⟨he, .inr ⟨word.toNat, (readNumber_eq_ok_iff hSign).1 hRead, hLarge⟩⟩

/-! ## Literals of a text -/

/-- Every token of a text comes from a lexeme. -/
theorem exists_lexeme_of_mem_scanFrom {start : Nat} {cs : List Char} {t : Located}
    (h : t ∈ scanFrom start cs) : ∃ c rest, t.token = .ofLexeme (lexeme (c :: rest)) := by
  fun_induction scanFrom start cs with
  | case1 => simp at h
  | case2 start c cs hSep ih => exact ih h
  | case3 start c cs hSep lead stop ih =>
      rcases List.mem_cons.1 h with rfl | hTail
      · exact ⟨c, cs, rfl⟩
      · exact ih hTail

/-- No character of a number becomes a plus sign when it is folded. -/
theorem toLower_ne_plus {c : Char} (h : isNumeric c) : c.toLower ≠ '+' := by
  intro hPlus
  rw [Text.eq_of_toLower_eq (by decide) hPlus] at h
  exact absurd h (by decide)

private theorem unsigned_ofLexeme (c : Char) (rest : List Char) :
    (Token.ofLexeme (lexeme (c :: rest))).Unsigned := by
  by_cases hDigit : c.isDigit
  · have hNumeric : ∀ d ∈ c :: rest.takeWhile isNumeric, isNumeric d := by
      intro d hd
      rcases List.mem_cons.1 hd with rfl | hd
      · simp [isNumeric, hDigit]
      · exact List.all_eq_true.1 List.all_takeWhile d hd
    have hPlus : '+' ∉ (Text.foldCase (String.ofList (c :: rest.takeWhile isNumeric))).toList := by
      rw [Text.toList_foldCase, String.toList_ofList]
      intro hMem
      obtain ⟨d, hd, hEq⟩ := List.mem_map.1 hMem
      exact toLower_ne_plus (hNumeric d hd) hEq
    simp only [lexeme, hDigit, if_true, Token.ofLexeme]
    split
    · exact hPlus
    · exact hPlus
  · obtain ⟨ds, hLead⟩ : ∃ ds, lexeme (c :: rest) = c :: ds := by
      simp only [lexeme, hDigit, Bool.false_eq_true, if_false]
      split
      · exact ⟨_, rfl⟩
      · split <;> exact ⟨_, rfl⟩
    rw [hLead]
    simp only [Token.ofLexeme, hDigit, Bool.false_eq_true, if_false]
    repeat' split
    all_goals exact trivial

/-- The literals of a text have no signs. -/
theorem unsigned_of_mem_scan {source : String} {t : Located} (h : t ∈ (scan source).tokens) :
    t.token.Unsigned := by
  obtain ⟨c, rest, hToken⟩ := exists_lexeme_of_mem_scanFrom h
  rw [hToken]
  exact unsigned_ofLexeme c rest

end Chip8.Asm

import Chip8.Asm.SymbolTable
import Chip8.Proofs.Asm.Resolver
import Chip8.Proofs.Asm.Operand

/-!
# The layout of a program

The statements of a source text are laid out one after the other: the first instruction
lies at the start of the memory for programs, every further one two bytes behind the one
before, and a label stands for the address of the instruction that comes next. Addresses
are words, so that a text of absurd length wraps around; a program that fits into memory
does not.

The symbol table is the outcome of one pass over the statements, in which a later
definition of a label replaces an earlier one. What it says about a label is therefore
told by the last definition alone: the address is the start of a program plus two bytes
for each instruction in front of that definition.

## Main definitions

* `commandsOf`, `Laid` — the instructions of a program, and its layout.
* `ReadsAs` — what is known of statements that were read from a text.
* `frontOfLast?`, `labelAddress?` — the last definition of a label, and its address.

## Main results

* `readsAs_of_parse` — statements that come from a text.
* `exists_ofStatements?_iff` — the first pass fails by the size of the program only.
* `address?_of_ofStatements?` — the symbol table gives each label its last address.
-/

namespace Chip8.Asm

/-! ## Instructions and their addresses -/

/-- The instructions among statements. -/
def commandsOf (statements : List Statement) : List Command :=
  statements.filterMap Statement.command?

@[simp] theorem commandsOf_nil : commandsOf [] = [] := rfl

@[simp] theorem commandsOf_label (l : Label) (offset : UInt16) (statements : List Statement) :
    commandsOf (.label l offset :: statements) = commandsOf statements := rfl

@[simp] theorem commandsOf_command (c : Command) (statements : List Statement) :
    commandsOf (.command c :: statements) = c :: commandsOf statements := rfl

/-- The statements lie one after the other, the next instruction at `address`. -/
def Laid : UInt16 → List Statement → Prop
  | _, [] => True
  | address, .label _ offset :: statements => offset = address ∧ Laid address statements
  | address, .command c :: statements => c.offset = address ∧ Laid (address + 2) statements

/-- The `k`-th instruction lies `2 * k` bytes behind the first, modulo `2^16`. -/
theorem offset_of_laid {address : UInt16} {statements : List Statement}
    (hLaid : Laid address statements) {k : Nat} {c : Command}
    (hc : (commandsOf statements)[k]? = some c) : c.offset = address + 2 * UInt16.ofNat k := by
  induction statements generalizing address k with
  | nil => simp at hc
  | cons s statements ih =>
      cases s with
      | label l offset => exact ih hLaid.2 hc
      | command d =>
          cases k with
          | zero =>
              obtain rfl : d = c := by simpa using hc
              simpa using hLaid.1
          | succ k =>
              have hRest := ih hLaid.2 (by simpa using hc)
              rw [hRest, UInt16.ofNat_add]
              grind

/-- The offset of an instruction as a number, which wraps around. -/
theorem toNat_offset_mod_of_laid {address : UInt16} {statements : List Statement}
    (hLaid : Laid address statements) {k : Nat} {c : Command}
    (hc : (commandsOf statements)[k]? = some c) :
    c.offset.toNat = (address.toNat + 2 * k) % 65536 := by
  rw [offset_of_laid hLaid hc, UInt16.toNat_add, UInt16.toNat_mul, UInt16.toNat_ofNat']
  simp only [UInt16.reduceToNat]
  omega

/-- As long as addresses do not wrap, they are plain numbers. -/
theorem toNat_offset_of_laid {address : UInt16} {statements : List Statement}
    (hLaid : Laid address statements) {k : Nat} {c : Command}
    (hc : (commandsOf statements)[k]? = some c) (hSmall : address.toNat + 2 * k < 65536) :
    c.offset.toNat = address.toNat + 2 * k := by
  rw [toNat_offset_mod_of_laid hLaid hc, Nat.mod_eq_of_lt hSmall]

/-! ## Statements of a text -/

/-- What is known of the statements of a text: they are laid out from the start of the
memory for programs, and every instruction has a form and literals without signs. -/
structure ReadsAs (statements : List Statement) : Prop where
  laid : Laid (UInt16.ofNat programStart) statements
  form : ∀ c ∈ commandsOf statements, ∃ e os, c.Form e os
  unsigned : ∀ c ∈ commandsOf statements, ∀ t ∈ c.tokens, t.token.Unsigned

/-- An instruction at the beginning of the tokens is the first statement. The reader
keeps the equation of this step for termination, so that the step is split instead of
rewritten. -/
theorem readStatements_of_readCommand {stop : Nat} {offset : UInt16} {m : Mnemonic} {t : Located}
    {ts rest : List Located} {c : Command} (ht : t.token = .ident (.keyword (.mnemonic m)))
    (hRead : readCommand stop offset (.keyword (.mnemonic m)) t ts = .ok (c, rest)) :
    readStatements stop offset (t :: ts) =
      (do let statements ← readStatements stop (offset + 2) rest
          return .command c :: statements) := by
  rw [readStatements]
  simp only [ht]
  split
  · rename_i e hStep
    exact absurd (hRead.symm.trans hStep) (by simp)
  · rename_i d ts' hStep
    obtain ⟨rfl, rfl⟩ := Prod.mk.inj (Except.ok.inj (hRead.symm.trans hStep))
    rfl

/-- What the segmenter makes of tokens: a layout, in which each instruction has a form
and consists of tokens that were there. -/
theorem laid_of_readStatements {stop : Nat} {offset : UInt16} {ts : List Located}
    {statements : List Statement} (h : readStatements stop offset ts = .ok statements) :
    Laid offset statements ∧ ∀ c ∈ commandsOf statements,
      (∃ e os, c.Form e os) ∧ ∀ t ∈ c.tokens, t ∈ ts := by
  fun_induction readStatements stop offset ts generalizing statements with
  | case1 offset =>
      obtain rfl := Except.ok.inj h
      exact ⟨trivial, by simp⟩
  | case2 offset t ts hComment ih =>
      obtain ⟨hLaid, hCommands⟩ := ih h
      exact ⟨hLaid, fun c hc => ⟨(hCommands c hc).1, fun u hu =>
        List.mem_cons_of_mem t ((hCommands c hc).2 u hu)⟩⟩
  | case3 offset t ts name hName ih =>
      obtain ⟨rest, hRest, h⟩ := exists_of_bind_eq_ok h
      obtain rfl := Except.ok.inj h
      obtain ⟨hLaid, hCommands⟩ := ih hRest
      have hSkip : ∀ u ∈ skipColon ts, u ∈ ts := by
        intro u hu
        cases ts with
        | nil => exact hu
        | cons v vs =>
            simp only [skipColon] at hu
            split at hu
            · exact List.mem_cons_of_mem v hu
            · exact hu
      exact ⟨⟨rfl, hLaid⟩, fun c hc => ⟨(hCommands c hc).1, fun u hu =>
        List.mem_cons_of_mem t (hSkip u ((hCommands c hc).2 u hu))⟩⟩
  | case4 offset t ts m hm e hRead => simp at h
  | case5 offset t ts m hm c ts' hRead ih =>
      obtain ⟨rest, hRest, h⟩ := exists_of_bind_eq_ok h
      obtain rfl := Except.ok.inj h
      obtain ⟨hLaid, hCommands⟩ := ih hRest
      obtain ⟨-, hOffset, hAppend, hForm⟩ := (readCommand_eq_ok_iff hm).1 hRead
      refine ⟨⟨hOffset, hLaid⟩, fun d hd => ?_⟩
      rw [hAppend]
      rcases List.mem_cons.1 hd with rfl | hd
      · exact ⟨hForm, fun u hu => List.mem_append_left ts' hu⟩
      · exact ⟨(hCommands d hd).1, fun u hu =>
          List.mem_append_right c.tokens ((hCommands d hd).2 u hu)⟩
  | case6 => simp at h

/-- Resolving labels makes no literals. -/
theorem unsigned_of_resolve {source : String} {stream : TokenStream}
    (h : resolve source = .ok stream) : ∀ t ∈ stream.tokens, t.token.Unsigned := by
  have hMarked : ∀ t ∈ markDefinitions (scan source).tokens, t.token.Unsigned := by
    intro t ht
    rcases exists_of_mem_markDefinitions ht with ⟨u, hRead, next, rfl⟩
    rcases markDefinition_cases u next with hSame | ⟨name, -, -, hMark⟩
    · rw [hSame]
      exact unsigned_of_mem_scan hRead
    · rw [hMark]
      exact trivial
  rw [tokens_of_resolve h]
  intro t ht
  obtain ⟨u, hu, rfl⟩ := List.mem_map.1 ht
  rcases markReference_cases (labelNames (markDefinitions (scan source).tokens)) u with
    hSame | ⟨name, -, -, hMark⟩
  · rw [hSame]
    exact hMarked u hu
  · rw [hMark]
    exact trivial

/-- The statements of a text. -/
theorem readsAs_of_parse {source : String} {statements : List Statement}
    (h : parse source = .ok statements) : ReadsAs statements := by
  obtain ⟨stream, hStream, hRead⟩ := exists_of_bind_eq_ok h
  obtain ⟨hLaid, hCommands⟩ := laid_of_readStatements hRead
  have hUnsigned := unsigned_of_resolve hStream
  exact
    { laid := hLaid
      form := fun c hc => (hCommands c hc).1
      unsigned := fun c hc t ht => hUnsigned t ((hCommands c hc).2 t ht) }

/-! ## The last definition of a label -/

/-- A statement defines a label, whose letter case does not matter. -/
def Statement.Defines (name : String) : Statement → Prop
  | .label l _ => Text.foldCase l.name = Text.foldCase name
  | .command _ => False

instance (name : String) : DecidablePred (Statement.Defines name)
  | .label l _ => inferInstanceAs (Decidable (Text.foldCase l.name = Text.foldCase name))
  | .command _ => inferInstanceAs (Decidable False)

/-- The statements in front of the last definition of a label. -/
def frontOfLast? (name : String) : List Statement → Option (List Statement)
  | [] => none
  | s :: statements =>
    match frontOfLast? name statements with
    | some front => some (s :: front)
    | none => if s.Defines name then some [] else none

/-- The address that the last definition gives to a label. -/
def labelAddress? (statements : List Statement) (name : String) : Option Nat :=
  (frontOfLast? name statements).map fun front => programStart + 2 * (commandsOf front).length

theorem frontOfLast?_eq_none_iff {name : String} {statements : List Statement} :
    frontOfLast? name statements = none ↔ ∀ s ∈ statements, ¬ s.Defines name := by
  induction statements with
  | nil => simp [frontOfLast?]
  | cons s statements ih =>
      rw [frontOfLast?]
      cases hFront : frontOfLast? name statements with
      | some front =>
          have hSome : ¬ ∀ t ∈ statements, ¬ t.Defines name := by
            rw [← ih, hFront]
            simp
          simp only [reduceCtorEq, false_iff]
          exact fun hAll => hSome fun t ht => hAll t (List.mem_cons_of_mem s ht)
      | none =>
          have hNone := ih.1 hFront
          by_cases hs : s.Defines name
          · simp [hs]
          · simp only [hs, if_false, true_iff]
            intro t ht
            rcases List.mem_cons.1 ht with rfl | ht
            · exact hs
            · exact hNone t ht

/-- The last definition is the one behind which there is no other. -/
theorem frontOfLast?_eq_some_iff {name : String} {statements front : List Statement} :
    frontOfLast? name statements = some front ↔
      ∃ s back, statements = front ++ s :: back ∧ s.Defines name ∧
        ∀ t ∈ back, ¬ t.Defines name := by
  induction statements generalizing front with
  | nil => simp [frontOfLast?]
  | cons s statements ih =>
      rw [frontOfLast?]
      constructor
      · intro h
        cases hFront : frontOfLast? name statements with
        | some front' =>
            rw [hFront] at h
            obtain rfl := Option.some.inj h
            obtain ⟨t, back, rfl, ht, hBack⟩ := ih.1 hFront
            exact ⟨t, back, rfl, ht, hBack⟩
        | none =>
            rw [hFront] at h
            by_cases hs : s.Defines name
            · obtain rfl : [] = front := by simpa [hs] using h
              exact ⟨s, statements, rfl, hs, frontOfLast?_eq_none_iff.1 hFront⟩
            · simp [hs] at h
      · intro hGiven
        rcases hGiven with ⟨t, back, hAppend, ht, hBack⟩
        cases front with
        | nil =>
            obtain ⟨rfl, rfl⟩ : s = t ∧ statements = back := by simpa using hAppend
            rw [frontOfLast?_eq_none_iff.2 hBack]
            simp [ht]
        | cons u front =>
            obtain ⟨rfl, hRest⟩ : s = u ∧ statements = front ++ t :: back := by
              simpa using hAppend
            rw [ih.2 ⟨t, back, hRest, ht, hBack⟩]

theorem labelAddress?_eq_some_iff {name : String} {statements : List Statement} {n : Nat} :
    labelAddress? statements name = some n ↔
      ∃ front s back, statements = front ++ s :: back ∧ s.Defines name ∧
        (∀ t ∈ back, ¬ t.Defines name) ∧ n = programStart + 2 * (commandsOf front).length := by
  rw [labelAddress?, Option.map_eq_some_iff]
  constructor
  · intro hGiven
    rcases hGiven with ⟨front, hFront, rfl⟩
    obtain ⟨s, back, hAppend, hs, hBack⟩ := frontOfLast?_eq_some_iff.1 hFront
    exact ⟨front, s, back, hAppend, hs, hBack, rfl⟩
  · intro hGiven
    rcases hGiven with ⟨front, s, back, hAppend, hs, hBack, rfl⟩
    exact ⟨front, frontOfLast?_eq_some_iff.2 ⟨s, back, hAppend, hs, hBack⟩, rfl⟩

/-! ## The pass over the statements -/

/-- The instruction lies in the memory for programs. -/
def Command.Inside (c : Command) : Prop :=
  programStart ≤ c.offset.toNat ∧ c.offset.toNat + 2 ≤ memorySize

/-- The pass fails only at an instruction outside the memory for programs. -/
theorem exists_foldlM_enter_iff {statements : List Statement} {table : SymbolTable} :
    (∃ table', statements.foldlM SymbolTable.enter table = .ok table') ↔
      ∀ c ∈ commandsOf statements, c.Inside := by
  induction statements generalizing table with
  | nil => simp [pure, Except.pure]
  | cons s statements ih =>
      rw [List.foldlM_cons]
      cases s with
      | label l offset => exact ih
      | command c =>
          rw [commandsOf_command, List.forall_mem_cons]
          by_cases hc : c.Inside
          · have hStep : table.enter (.command c) = .ok table := if_pos hc
            rw [hStep]
            exact ih.trans (by simp [hc])
          · have hStep : table.enter (.command c) = .error (.single .programTooLarge c.span) :=
              if_neg hc
            rw [hStep]
            simp [hc, bind, Except.bind]

/-- A program whose instructions follow each other is inside exactly if its last
instruction is. -/
theorem inside_iff_of_laid {statements : List Statement}
    (hLaid : Laid (UInt16.ofNat programStart) statements) :
    (∀ c ∈ commandsOf statements, c.Inside) ↔
      2 * (commandsOf statements).length ≤ programCapacity := by
  have hStart : (UInt16.ofNat programStart).toNat = 512 := rfl
  have hCapacity : programCapacity = 3584 := rfl
  constructor
  · intro hAll
    by_contra hLarge
    -- The first instruction too many is taken and not the last one, whose offset may have
    -- wrapped.
    have hLast : 1792 < (commandsOf statements).length := by omega
    have hc := List.getElem?_eq_getElem hLast
    have hOffset := toNat_offset_of_laid hLaid hc (by omega)
    have hInside := hAll _ (List.getElem_mem hLast)
    simp only [Command.Inside, programStart, memorySize] at hInside
    omega
  · intro hSmall c hMem
    obtain ⟨k, hk, rfl⟩ := List.getElem_of_mem hMem
    have hOffset := toNat_offset_of_laid hLaid (List.getElem?_eq_getElem hk) (by omega)
    simp only [Command.Inside, programStart, memorySize]
    omega

/-- The first pass succeeds exactly if the program fits. -/
theorem exists_ofStatements?_iff {statements : List Statement}
    (hLaid : Laid (UInt16.ofNat programStart) statements) :
    (∃ table, SymbolTable.ofStatements? statements = .ok table) ↔
      2 * (commandsOf statements).length ≤ programCapacity :=
  exists_foldlM_enter_iff.trans (inside_iff_of_laid hLaid)

/-- What a pass from any table and address on says about a label: a definition among the
statements wins over the table, and the last one over the others. -/
theorem address?_of_foldlM_enter {statements : List Statement} {table table' : SymbolTable}
    {address : UInt16} (hLaid : Laid address statements)
    (hSmall : address.toNat + 2 * (commandsOf statements).length < 65536)
    (h : statements.foldlM SymbolTable.enter table = .ok table') (name : String) :
    (table'.address? name).map UInt16.toNat =
      match frontOfLast? name statements with
      | some front => some (address.toNat + 2 * (commandsOf front).length)
      | none => (table.address? name).map UInt16.toNat := by
  -- The table is general in the induction, since a definition among the first statements
  -- shows in it when the rest is passed.
  induction statements generalizing table address with
  | nil =>
      obtain rfl := Except.ok.inj h
      rfl
  | cons s statements ih =>
      rw [List.foldlM_cons] at h
      obtain ⟨table₁, hStep, hRest⟩ := exists_of_bind_eq_ok h
      cases s with
      | label l offset =>
          obtain rfl := Except.ok.inj hStep
          rw [ih hLaid.2 hSmall hRest, frontOfLast?]
          cases frontOfLast? name statements with
          | some front => rfl
          | none =>
              simp only [SymbolTable.address?_insert, Statement.Defines]
              by_cases hName : Text.foldCase l.name = Text.foldCase name
              · simp [hName, hLaid.1]
              · simp [hName]
      | command c =>
          have hSame : table₁ = table := by
            simp only [SymbolTable.enter] at hStep
            split at hStep
            · exact (Except.ok.inj hStep).symm
            · simp at hStep
          have hCount : (commandsOf (.command c :: statements)).length =
              (commandsOf statements).length + 1 := rfl
          have hNext : (address + 2).toNat = address.toNat + 2 := by
            rw [UInt16.toNat_add]
            simp only [UInt16.reduceToNat]
            omega
          rw [ih hLaid.2 (by omega) hRest, frontOfLast?, hSame]
          cases frontOfLast? name statements with
          | some front =>
              simp only [commandsOf_command, List.length_cons, hNext, Option.some.injEq]
              omega
          | none => simp [Statement.Defines]

/-- The symbol table of a program gives each label the address of its last definition,
and has no other labels. -/
theorem address?_of_ofStatements? {statements : List Statement} {table : SymbolTable}
    (hLaid : Laid (UInt16.ofNat programStart) statements)
    (h : SymbolTable.ofStatements? statements = .ok table) (name : String) :
    (table.address? name).map UInt16.toNat = labelAddress? statements name := by
  have hSize := (exists_ofStatements?_iff hLaid).1 ⟨table, h⟩
  have hStart : (UInt16.ofNat programStart).toNat = 512 := rfl
  have hCapacity : programCapacity = 3584 := rfl
  rw [address?_of_foldlM_enter hLaid (by omega) h name, labelAddress?, hStart]
  cases frontOfLast? name statements with
  | some front => rfl
  | none => simp

end Chip8.Asm

import Chip8.Asm.ObjectFile
import Chip8.Proofs.Asm.Layout
import Chip8.Proofs.Asm.Word

/-!
# Assembling a program

The stages of the assembler put together. The reader lays the statements out, the first
pass collects the addresses of labels, the second one puts them in place of the labels,
and the encoder turns what is left into words. For a program that the reader accepts,
the outcome is given by its statements alone: each instruction has an entry and
operands, each label an address, and the image is made of the words of the instructions.

The size of a program is checked twice, by the first pass and by the encoder. The second
check never fails where the first one did not.

## Main definitions

* `Command.Assembles` — the word of an instruction, in terms of what is written.

## Main results

* `ofStatements_eq_ok_iff` — what an assembled program consists of.
* `ofSource_correct` — when a program is assembled, and what comes out.
-/

namespace Chip8.Asm

/-- The instruction becomes the word `w` where labels have the given addresses. -/
def Command.Assembles (labels : String → Option Nat) (c : Command) (w : UInt16) : Prop :=
  ∃ e os, c.Form e os ∧ (∀ o ∈ os, o.Fits labels e.format) ∧ w.toNat = assembledWord labels e os

section Instructions

variable {c : Command} (hUnsigned : ∀ t ∈ c.tokens, t.token.Unsigned) {table : SymbolTable}
include hUnsigned

/-- Resolving and encoding an instruction gives its word. -/
theorem exists_resolve_encode_iff (hForm : ∃ e os, c.Form e os) {w : UInt16} :
    (∃ c', table.resolve c = .ok c' ∧ c'.encode = .ok w) ↔ c.Assembles table.addressOf? w := by
  constructor
  · intro hGiven
    rcases hGiven with ⟨c', hResolved, hEncoded⟩
    obtain ⟨e, os, hForm⟩ := hForm
    exact ⟨e, os, hForm, (exists_encode_iff hForm hUnsigned hResolved).1 ⟨w, hEncoded⟩,
      toNat_of_encode hForm hUnsigned hResolved hEncoded⟩
  · intro hGiven
    rcases hGiven with ⟨e, os, hForm, hFit, hw⟩
    obtain ⟨c', hResolved⟩ := exists_resolve hForm hFit
    obtain ⟨w', hEncoded⟩ := (exists_encode_iff hForm hUnsigned hResolved).2 hFit
    have hSame : w' = w := by
      apply UInt16.toNat_inj.1
      rw [toNat_of_encode hForm hUnsigned hResolved hEncoded, hw]
    exact ⟨c', hResolved, hSame ▸ hEncoded⟩

/-- An instruction has a word if its operands fit. -/
theorem exists_assembles_iff : (∃ w, c.Assembles table.addressOf? w) ↔
    ∃ e os, c.Form e os ∧ ∀ o ∈ os, o.Fits table.addressOf? e.format := by
  constructor
  · intro hGiven
    rcases hGiven with ⟨w, e, os, hForm, hFit, -⟩
    exact ⟨e, os, hForm, hFit⟩
  · intro hGiven
    rcases hGiven with ⟨e, os, hForm, hFit⟩
    obtain ⟨c', hResolved⟩ := exists_resolve hForm hFit
    obtain ⟨w, hEncoded⟩ := (exists_encode_iff hForm hUnsigned hResolved).2 hFit
    exact ⟨w, (exists_resolve_encode_iff hUnsigned ⟨e, os, hForm⟩).1 ⟨c', hResolved, hEncoded⟩⟩

end Instructions

/-! ## Programs -/

theorem length_flatMap_wordBytes (ws : List UInt16) :
    (ws.flatMap wordBytes).length = 2 * ws.length := by
  induction ws with
  | nil => rfl
  | cons w ws ih =>
      rw [List.flatMap_cons, List.length_append, ih]
      simp only [wordBytes, List.length_cons, List.length_nil]
      omega

/-- The addresses that the first pass collects are those of the last definitions. -/
theorem labelAddress?_eq_addressOf? {statements : List Statement} (hReads : ReadsAs statements)
    {table : SymbolTable} (hTable : SymbolTable.ofStatements? statements = .ok table) :
    labelAddress? statements = table.addressOf? :=
  funext fun name => (address?_of_ofStatements? hReads.laid hTable name).symm

namespace ObjectFile

/-- The second pass: instructions are resolved, and what is resolved is encoded. -/
theorem ofResolved_eq_ok_iff {statements : List Statement} {table : SymbolTable}
    {keepSymbols : Bool} {o : ObjectFile} :
    ofResolved statements table keepSymbols = .ok o ↔
      ∃ commands, (commandsOf statements).mapM table.resolve = .ok commands ∧
        encodeAll commands = .ok o.image ∧
          o.symbols = if keepSymbols then some table else none := by
  rw [ofResolved, commandsOf]
  cases (statements.filterMap Statement.command?).mapM table.resolve with
  | error e => simp
  | ok commands =>
      dsimp only
      constructor
      · intro h
        split at h
        · simp at h
        · rename_i image hEncoded
          obtain rfl := Except.ok.inj h
          exact ⟨commands, rfl, hEncoded, rfl⟩
      · intro hGiven
        rcases hGiven with ⟨_, hCommands, hEncoded, hSymbols⟩
        obtain rfl := Except.ok.inj hCommands
        split
        · rename_i e herror
          rw [hEncoded] at herror
          simp at herror
        · rename_i image hImage
          obtain rfl := Except.ok.inj (hEncoded.symm.trans hImage)
          obtain ⟨image, symbols, hFits⟩ := o
          obtain rfl : symbols = _ := hSymbols
          rfl

/-- An assembled program consists of the words of its instructions, and the first pass
made its symbol table. -/
theorem ofStatements_eq_ok_iff {statements : List Statement} (hReads : ReadsAs statements)
    {keepSymbols : Bool} {o : ObjectFile} :
    ofStatements keepSymbols statements = .ok o ↔
      ∃ table ws, SymbolTable.ofStatements? statements = .ok table ∧
        List.Forall₂ (Command.Assembles (labelAddress? statements)) (commandsOf statements) ws ∧
          ws.flatMap wordBytes = o.image ∧
            o.symbols = if keepSymbols then some table else none := by
  have hWords : ∀ table, SymbolTable.ofStatements? statements = .ok table → ∀ ws,
      List.Forall₂ (Command.Assembles (labelAddress? statements)) (commandsOf statements) ws ↔
        ∃ commands, (commandsOf statements).mapM table.resolve = .ok commands ∧
          List.Forall₂ (fun c w => c.encode = .ok w) commands ws := by
    intro table hTable ws
    simp only [mapM_eq_ok_iff]
    rw [exists_forall₂_trans_iff, labelAddress?_eq_addressOf? hReads hTable, List.forall₂_iff_get,
      List.forall₂_iff_get]
    refine and_congr_right fun _ => forall_congr' fun k => forall_congr' fun hk =>
      forall_congr' fun _ => ?_
    have hMem : (commandsOf statements).get ⟨k, hk⟩ ∈ commandsOf statements := List.get_mem _ _
    exact (exists_resolve_encode_iff (hReads.unsigned _ hMem) (hReads.form _ hMem)).symm
  have hSize : ∀ table commands, SymbolTable.ofStatements? statements = .ok table →
      (commandsOf statements).mapM table.resolve = .ok commands →
        0 + 2 * commands.length ≤ programCapacity := by
    intro table commands hTable hCommands
    have hFits := (exists_ofStatements?_iff hReads.laid).1 ⟨table, hTable⟩
    rw [Nat.zero_add, ← (mapM_eq_ok_iff.1 hCommands).length_eq]
    exact hFits
  constructor
  · intro h
    obtain ⟨table, hTable, h⟩ := exists_of_bind_eq_ok h
    obtain ⟨commands, hCommands, hEncoded, hSymbols⟩ := ofResolved_eq_ok_iff.1 h
    obtain ⟨ws, hws, hImage⟩ :=
      (encodeFrom_eq_ok_iff (hSize table commands hTable hCommands)).1 hEncoded
    exact ⟨table, ws, hTable, (hWords table hTable ws).2 ⟨commands, hCommands, hws⟩, hImage,
      hSymbols⟩
  · intro hGiven
    rcases hGiven with ⟨table, ws, hTable, hws, hImage, hSymbols⟩
    obtain ⟨commands, hCommands, hEncoded⟩ := (hWords table hTable ws).1 hws
    have hAll : encodeAll commands = .ok o.image :=
      (encodeFrom_eq_ok_iff (hSize table commands hTable hCommands)).2 ⟨ws, hEncoded, hImage⟩
    rw [ofStatements, hTable]
    exact ofResolved_eq_ok_iff.2 ⟨commands, hCommands, hAll, hSymbols⟩

/-- A program is assembled if it fits in the memory for programs and each operand in its
field. -/
theorem exists_ofStatements_iff {statements : List Statement} (hReads : ReadsAs statements)
    {keepSymbols : Bool} : (∃ o, ofStatements keepSymbols statements = .ok o) ↔
      2 * (commandsOf statements).length ≤ programCapacity ∧
        ∀ c ∈ commandsOf statements, ∃ e os, c.Form e os ∧
          ∀ o ∈ os, o.Fits (labelAddress? statements) e.format := by
  rw [← exists_ofStatements?_iff hReads.laid]
  have hWords : ∀ table, SymbolTable.ofStatements? statements = .ok table →
      ((∃ ws, List.Forall₂ (Command.Assembles (labelAddress? statements))
          (commandsOf statements) ws) ↔
        ∀ c ∈ commandsOf statements, ∃ e os, c.Form e os ∧
          ∀ o ∈ os, o.Fits (labelAddress? statements) e.format) := by
    intro table hTable
    rw [exists_forall₂_iff, labelAddress?_eq_addressOf? hReads hTable]
    exact forall₂_congr fun c hc => exists_assembles_iff (hReads.unsigned c hc)
  constructor
  · intro hGiven
    rcases hGiven with ⟨o, h⟩
    obtain ⟨table, ws, hTable, hws, -, -⟩ := (ofStatements_eq_ok_iff hReads).1 h
    exact ⟨⟨table, hTable⟩, (hWords table hTable).1 ⟨ws, hws⟩⟩
  · intro hGiven
    rcases hGiven with ⟨⟨table, hTable⟩, hFit⟩
    obtain ⟨ws, hws⟩ := (hWords table hTable).2 hFit
    have hSize := (exists_ofStatements?_iff hReads.laid).1 ⟨table, hTable⟩
    have hLength : (ws.flatMap wordBytes).length ≤ programCapacity := by
      rw [length_flatMap_wordBytes, ← hws.length_eq]
      exact hSize
    exact ⟨⟨ws.flatMap wordBytes, if keepSymbols then some table else none, hLength⟩,
      (ofStatements_eq_ok_iff hReads).2 ⟨table, ws, hTable, hws, rfl, rfl⟩⟩

/-- The words of an assembled program are those of its instructions, in order. -/
theorem wordsOf_of_ofStatements {statements : List Statement} (hReads : ReadsAs statements)
    {keepSymbols : Bool} {o : ObjectFile} (h : ofStatements keepSymbols statements = .ok o) :
    List.Forall₂ (Command.Assembles (labelAddress? statements)) (commandsOf statements)
      (wordsOf o.image) := by
  obtain ⟨_, ws, -, hws, hImage, -⟩ := (ofStatements_eq_ok_iff hReads).1 h
  rw [← hImage, wordsOf_flatMap_wordBytes]
  exact hws

theorem length_of_ofStatements {statements : List Statement} (hReads : ReadsAs statements)
    {keepSymbols : Bool} {o : ObjectFile} (h : ofStatements keepSymbols statements = .ok o) :
    o.image.length = 2 * (commandsOf statements).length := by
  obtain ⟨_, ws, -, hws, hImage, -⟩ := (ofStatements_eq_ok_iff hReads).1 h
  rw [← hImage, length_flatMap_wordBytes, hws.length_eq]

/-- A source text that is read is assembled as its statements. -/
theorem ofSource_of_parse {source : String} {statements : List Statement}
    (hParse : parse source = .ok statements) :
    ofSource source = ofStatements true statements := by
  rw [ofSource, hParse]

/-- A program that is read is assembled exactly if it has at most 1792 instructions and
every operand fits in its field, a label as its address. The image then consists of the
words of the instructions, and the symbol table gives each label the place of its last
definition. -/
theorem ofSource_correct {source : String} {statements : List Statement}
    (hParse : parse source = .ok statements) :
    ((∃ o, ofSource source = .ok o) ↔
      (commandsOf statements).length ≤ 1792 ∧
        ∀ c ∈ commandsOf statements, ∃ e os, c.Form e os ∧
          ∀ o ∈ os, o.Fits (labelAddress? statements) e.format) ∧
    ∀ o, ofSource source = .ok o →
      o.image.length = 2 * (commandsOf statements).length ∧
      (∀ (k : Nat) (c : Command) (e : Entry) (os : List Operand),
        (commandsOf statements)[k]? = some c → c.Form e os →
          ∃ w, (wordsOf o.image)[k]? = some w ∧
            w.toNat = assembledWord (labelAddress? statements) e os) ∧
      ∃ table, o.symbols = some table ∧ ∀ (name : String) (address : UInt16),
        table.address? name = some address ↔
          ∃ front s back, statements = front ++ s :: back ∧ s.Defines name ∧
            (∀ t ∈ back, ¬ t.Defines name) ∧
              address.toNat = 0x200 + 2 * (commandsOf front).length := by
  have hReads := readsAs_of_parse hParse
  have hCapacity : programCapacity = 3584 := rfl
  rw [ofSource_of_parse hParse]
  constructor
  · rw [exists_ofStatements_iff hReads]
    refine and_congr_left fun _ => ?_
    omega
  · intro o h
    refine ⟨length_of_ofStatements hReads h, ?_, ?_⟩
    · intro k c e os hc hForm
      obtain ⟨hk, rfl⟩ := List.getElem?_eq_some_iff.1 hc
      have hWords := wordsOf_of_ofStatements hReads h
      have hk' : k < (wordsOf o.image).length := hWords.length_eq ▸ hk
      obtain ⟨e', os', hForm', -, hw⟩ := hWords.get hk hk'
      obtain ⟨rfl, rfl⟩ := hForm.unique hForm'
      exact ⟨_, List.getElem?_eq_getElem hk', hw⟩
    · obtain ⟨table, _, hTable, -, -, hSymbols⟩ := (ofStatements_eq_ok_iff hReads).1 h
      refine ⟨table, hSymbols, ?_⟩
      intro name address
      have hLabel := address?_of_ofStatements? hReads.laid hTable name
      rw [show (0x200 : Nat) = programStart from rfl, ← labelAddress?_eq_some_iff, ← hLabel]
      simp [UInt16.toNat_inj]

/-- Two jumps to each other: labels are known in front of their definitions and behind
them. -/
theorem ofSource_correct_jumps : ∃ statements o,
    parse "a: jmp b\nb: jmp a" = .ok statements ∧
      ofSource "a: jmp b\nb: jmp a" = .ok o ∧ (commandsOf statements).length ≤ 1792 ∧
        o.image.length = 4 := by
  have hCount : (parse "a: jmp b\nb: jmp a").toOption.map (fun s => (commandsOf s).length) =
      some 2 := by decide +kernel
  have hImage : (ofSource "a: jmp b\nb: jmp a").toOption.isSome := by decide +kernel
  cases hParse : parse "a: jmp b\nb: jmp a" with
  | error e => simp [hParse, Except.toOption] at hCount
  | ok statements =>
      cases hAssembled : ofSource "a: jmp b\nb: jmp a" with
      | error e => simp [hAssembled, Except.toOption] at hImage
      | ok o =>
          have hLength : (commandsOf statements).length = 2 := by
            simpa [hParse, Except.toOption] using hCount
          obtain ⟨hIff, hImages⟩ := ofSource_correct hParse
          refine ⟨statements, o, rfl, rfl, (hIff.1 ⟨o, hAssembled⟩).1, ?_⟩
          rw [(hImages o hAssembled).1, hLength]

end ObjectFile

end Chip8.Asm

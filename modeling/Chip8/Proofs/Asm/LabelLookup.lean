import Chip8.Proofs.Asm.BinaryFormat
import Chip8.Proofs.Asm.TextualFormat

/-!
# Labels looked up in both directions

A symbol table is asked for the address of a label, and for a label at an address. It
comes about in three ways, of which each enters labels on its own: the first pass enters
those that statements define, and the readers of both forms of object files enter the
records of the file. All of them fold the names, and an entry for a name replaces the
one before. So every table is made of a row of records, and what is looked up in it is
told by that row.

Several labels may have one address. The one that is given for it is the first by its
bytes, which is the same however the table is gone through: a row that has each entry of
the table once, in whatever order, has the same first label at an address, and the same
address for a label.

## Main definitions

* `definedLabels` — the labels that statements define.
* `listedAddress?`, `firstListed?` — looking through a row of entries.
* `SymbolTable.IsFirstAt` — the label that is given for an address.
* `SymbolTable.Consistent` — the two directions fit together, and the records that were
  entered.

## Main results

* `SymbolTable.labelAt?_eq_some_iff`, `SymbolTable.firstListed?_eq_some_iff` — both find
  the first.
* `SymbolTable.eq_ofRecords_of_ofStatements?` — the table of a program as a row of
  records.
* `SymbolTable.MadeOf.consistent` — tables of records.
* `SymbolTable.lookups_consistent` — all tables.
-/

namespace Chip8.Asm

open Text (foldCase toUtf8)

/-! ## The labels of statements -/

/-- The label that a statement defines, if it defines one. -/
def Statement.label? : Statement → Option LabelRecord
  | .label l offset => some ⟨l.name, offset⟩
  | .command _ => none

/-- The labels that statements define, in order. -/
def definedLabels (statements : List Statement) : List LabelRecord :=
  statements.filterMap Statement.label?

/-! ## Rows of entries -/

/-- The address that a row of entries has for a label. Entries have folded names. -/
def listedAddress? (row : List LabelRecord) (label : String) : Option UInt16 :=
  (row.find? (·.name = foldCase label)).map (·.address)

/-- Of the names that a row of entries has for an address, the first by its bytes. -/
def firstListed? (row : List LabelRecord) (address : UInt16) : Option String :=
  ((row.filter (·.address = address)).map (·.name)).minOn? toUtf8

/-- The smallest of a row is the element that is not larger than any. -/
theorem minOn?_toUtf8_eq_some_iff {names : List String} {name : String} :
    names.minOn? toUtf8 = some name ↔
      name ∈ names ∧ ∀ other ∈ names, toUtf8 name ≤ toUtf8 other := by
  have hLeast {least : String} (hFound : names.minOn? toUtf8 = some least) :
      ∀ other ∈ names, toUtf8 least ≤ toUtf8 other := by
    intro other hMem
    have hLe := List.apply_get_minOn?_le_of_mem (f := toUtf8) hMem
    simpa only [hFound, Option.get_some] using hLe
  constructor
  · intro hFound
    exact ⟨List.minOn?_mem hFound, hLeast hFound⟩
  · intro hGiven
    obtain ⟨hMem, hAll⟩ := hGiven
    have hSome : (names.minOn? toUtf8).isSome := List.isSome_minOn?_of_mem hMem
    obtain ⟨least, hFound⟩ := Option.isSome_iff_exists.1 hSome
    have hSame : toUtf8 least = toUtf8 name :=
      List.le_antisymm (hLeast hFound name hMem) (hAll least (List.minOn?_mem hFound))
    rw [hFound, Text.toUtf8_injective hSame]

/-- Rows of bytes are compared as they are ordered. -/
theorem lt_of_compare_eq_lt {as bs : List UInt8} (hCompare : compare as bs = .lt) : as < bs := by
  induction as generalizing bs with
  | nil =>
      cases bs with
      | nil => cases hCompare
      | cons b bs => exact List.nil_lt_cons b bs
  | cons a as ih =>
      cases bs with
      | nil => cases hCompare
      | cons b bs =>
          rw [List.compare_cons_cons, Ordering.then_eq_lt] at hCompare
          apply List.cons_lt_cons_iff.2
          cases hCompare with
          | inl hHead => exact .inl (Std.compare_eq_lt.1 hHead)
          | inr hTail => exact .inr ⟨Std.LawfulEqOrd.eq_of_compare hTail.1, ih hTail.2⟩

namespace SymbolTable

variable {t : SymbolTable} {row entered : List LabelRecord} {address : UInt16} {name : String}

/-- The label is the first by its bytes of those that the table has for the address. -/
def IsFirstAt (t : SymbolTable) (address : UInt16) (name : String) : Prop :=
  ⟨name, address⟩ ∈ t.records ∧
    ∀ other, ⟨other, address⟩ ∈ t.records → toUtf8 name ≤ toUtf8 other

/-! ## Looking through a table -/

theorem mem_records_iff_mem_toList {n : Name} :
    ⟨n.text, address⟩ ∈ t.records ↔ (n, address) ∈ t.toList := by
  rw [mem_records_iff, address?, Name.ofString_text, toList,
    Std.ExtTreeMap.mem_toList_iff_getElem?_eq_some]
  exact and_iff_right n.folded

/-- No two names are first. -/
theorem IsFirstAt.eq {other : String} (hFirst : t.IsFirstAt address name)
    (hOther : t.IsFirstAt address other) : name = other :=
  Text.toUtf8_injective (List.le_antisymm (hFirst.2 other hOther.1) (hOther.2 name hFirst.1))

/-- In a row by names, the first entry with the address has the first label. -/
theorem isFirstAt_of_labelAt? {n : Name} (hFound : t.labelAt? address = some n) :
    t.IsFirstAt address n.text := by
  obtain ⟨entry, hEntry, rfl⟩ := Option.map_eq_some_iff.1 hFound
  obtain ⟨hHere, front, back, hSplit, hFront⟩ := List.find?_eq_some_iff_append.1 hEntry
  have hAddress : entry.2 = address := of_decide_eq_true hHere
  have hOrdered : t.toList.Pairwise fun p q => compare p.1 q.1 = .lt :=
    Std.ExtTreeMap.ordered_keys_toList
  constructor
  · rw [mem_records_iff_mem_toList, hSplit, ← hAddress]
    exact List.mem_append_right front List.mem_cons_self
  · intro other hOther
    have hFolded := (mem_records_iff.1 hOther).1
    have hMem : ((⟨other, hFolded⟩ : Name), address) ∈ t.toList :=
      mem_records_iff_mem_toList.1 hOther
    rw [hSplit] at hMem hOrdered
    cases List.mem_append.1 hMem with
    | inl hInFront => simpa using hFront _ hInFront
    | inr hBehind =>
        cases List.mem_cons.1 hBehind with
        | inl hSame => exact hSame ▸ List.le_refl _
        | inr hInBack =>
            have hLater := (List.pairwise_cons.1 (List.pairwise_append.1 hOrdered).2.1).1 _ hInBack
            exact List.le_of_lt (lt_of_compare_eq_lt hLater)

theorem labelAt?_eq_some_iff :
    (t.labelAt? address).map (·.text) = some name ↔ t.IsFirstAt address name := by
  constructor
  · intro hGiven
    obtain ⟨n, hFound, rfl⟩ := Option.map_eq_some_iff.1 hGiven
    exact isFirstAt_of_labelAt? hFound
  · intro hFirst
    have hFolded : foldCase name = name := (mem_records_iff.1 hFirst.1).1
    have hMem : ((⟨name, hFolded⟩ : Name), address) ∈ t.toList :=
      mem_records_iff_mem_toList.1 hFirst.1
    have hSome : (t.toList.find? (·.2 = address)).isSome :=
      List.find?_isSome.2 ⟨_, hMem, decide_eq_true rfl⟩
    obtain ⟨entry, hEntry⟩ := Option.isSome_iff_exists.1 hSome
    have hFound : t.labelAt? address = some entry.1 := by
      rw [labelAt?, hEntry]
      rfl
    rw [hFound, Option.map_some, (isFirstAt_of_labelAt? hFound).eq hFirst]

/-- A row of the entries of a table has the same first label, in whatever order it has
them. -/
theorem firstListed?_eq_some_iff (hRow : row.Perm t.records) :
    firstListed? row address = some name ↔ t.IsFirstAt address name := by
  have hMem (other : String) : other ∈ (row.filter (·.address = address)).map (·.name) ↔
      ⟨other, address⟩ ∈ t.records := by
    rw [← hRow.mem_iff, List.mem_map]
    constructor
    · intro hGiven
      obtain ⟨r, hFiltered, rfl⟩ := hGiven
      obtain ⟨hThere, hAddress⟩ := List.mem_filter.1 hFiltered
      rwa [← of_decide_eq_true hAddress]
    · intro hThere
      exact ⟨_, List.mem_filter.2 ⟨hThere, decide_eq_true rfl⟩, rfl⟩
  simp only [firstListed?, minOn?_toUtf8_eq_some_iff, hMem, IsFirstAt]

/-- A row of the entries of a table has the same address for a label, in whatever order
it has them. -/
theorem listedAddress?_eq (hRow : row.Perm t.records) (label : String) :
    listedAddress? row label = t.address? label := by
  have hFold : t.address? (foldCase label) = t.address? label := by
    simp only [address?, Name.ofString, Text.foldCase_foldCase]
  have hEntry {r : LabelRecord} (hThere : r ∈ row) (hName : r.name = foldCase label) :
      t.address? label = some r.address := by
    have hAddress := (mem_records_iff.1 (hRow.mem_iff.1 hThere)).2
    rwa [hName, hFold] at hAddress
  cases hFound : row.find? (·.name = foldCase label) with
  | some r =>
      have hHolds := List.find?_some hFound
      have hName : r.name = foldCase label := of_decide_eq_true hHolds
      rw [listedAddress?, hFound, hEntry (List.mem_of_find?_eq_some hFound) hName]
      rfl
  | none =>
      rw [listedAddress?, hFound, Option.map_none]
      cases hAddress : t.address? label with
      | none => rfl
      | some address =>
          have hThere : ⟨foldCase label, address⟩ ∈ t.records :=
            mem_records_iff.2 ⟨Text.foldCase_foldCase label, hFold.trans hAddress⟩
          have hOther := List.find?_eq_none.1 hFound _ (hRow.mem_iff.2 hThere)
          simp at hOther

/-! ## Tables of records -/

/-- The table fits the row of records that were entered, and its two directions fit
together. -/
structure Consistent (t : SymbolTable) (entered : List LabelRecord) : Prop where
  /-- The names in the table are those that were entered, folded. -/
  names (name : String) :
    (∃ address, ⟨name, address⟩ ∈ t.records) ↔ ∃ r ∈ entered, foldCase r.name = name
  folded (r : LabelRecord) : r ∈ t.records → foldCase r.name = r.name
  /-- Letter case does not matter. -/
  caseless (label other : String) : foldCase label = foldCase other →
    t.address? label = t.address? other
  /-- The last record for a label counts. -/
  last (label : String) (address : UInt16) :
    t.address? label = some address ↔ IsLastFor entered label address
  /-- There is a label at the addresses of labels. -/
  isSome (address : UInt16) :
    (t.labelAt? address).isSome ↔ ∃ label, t.address? label = some address
  /-- It is the first by its bytes. -/
  first (address : UInt16) (name : String) :
    (t.labelAt? address).map (·.text) = some name ↔ t.IsFirstAt address name
  /-- It has the address. -/
  back (address : UInt16) (n : Name) : t.labelAt? address = some n →
    t.address? n.text = some address
  /-- Both directions are found in the entries in any order. -/
  order (row : List LabelRecord) : row.Perm t.records →
    (∀ label, listedAddress? row label = t.address? label) ∧
      ∀ address, firstListed? row address = (t.labelAt? address).map (·.text)

/-- There is a last record for a label if there is any. -/
theorem exists_isLastFor_iff {label : String} :
    (∃ address, IsLastFor entered label address) ↔
      ∃ r ∈ entered, foldCase r.name = foldCase label := by
  induction entered using List.reverseRecOn with
  | nil => simp [not_isLastFor_nil]
  | append_singleton entered r ih =>
      simp only [isLastFor_concat_iff, List.mem_append, List.mem_singleton, or_and_right, exists_or,
        exists_eq_left, ← ih]
      by_cases hSame : foldCase r.name = foldCase label
      · simp [hSame]
      · simp [hSame]

/-- There is a label at an address exactly if a label has the address. -/
theorem isSome_labelAt?_iff :
    (t.labelAt? address).isSome ↔ ∃ label, t.address? label = some address := by
  constructor
  · intro hSome
    obtain ⟨n, hFound⟩ := Option.isSome_iff_exists.1 hSome
    exact ⟨n.text, (mem_records_iff.1 (isFirstAt_of_labelAt? hFound).1).2⟩
  · intro hGiven
    obtain ⟨label, hAddress⟩ := hGiven
    have hMem : (Name.ofString label, address) ∈ t.toList :=
      Std.ExtTreeMap.mem_toList_iff_getElem?_eq_some.2 hAddress
    rw [labelAt?, Option.isSome_map]
    exact List.find?_isSome.2 ⟨_, hMem, decide_eq_true rfl⟩

theorem MadeOf.consistent (hMade : t.MadeOf entered) : t.Consistent entered := by
  constructor
  case names =>
    intro name
    simp only [mem_records_iff, hMade.address, exists_and_left, exists_isLastFor_iff]
    constructor
    · intro hGiven
      obtain ⟨hFolded, r, hMem, hName⟩ := hGiven
      exact ⟨r, hMem, hName.trans hFolded⟩
    · intro hGiven
      obtain ⟨r, hMem, rfl⟩ := hGiven
      exact ⟨Text.foldCase_foldCase _, r, hMem, (Text.foldCase_foldCase _).symm⟩
  case folded => exact hMade.folded
  case caseless =>
    intro label other hSame
    simp only [address?, Name.ofString, hSame]
  case last => exact hMade.address
  case isSome => exact fun address => isSome_labelAt?_iff
  case first => exact fun address name => labelAt?_eq_some_iff
  case back => exact fun address n hFound => (mem_records_iff.1 (isFirstAt_of_labelAt? hFound).1).2
  case order =>
    intro row hRow
    refine ⟨listedAddress?_eq hRow, fun address => Option.ext fun name => ?_⟩
    rw [firstListed?_eq_some_iff hRow, labelAt?_eq_some_iff]

/-- Entering statements is entering the labels that they define. -/
theorem eq_withRecords_of_foldlM_enter {t' : SymbolTable} {statements : List Statement}
    (hTable : statements.foldlM enter t = .ok t') :
    t' = t.withRecords (definedLabels statements) := by
  induction statements generalizing t with
  | nil => exact (Except.ok.inj hTable).symm
  | cons s statements ih =>
      rw [List.foldlM_cons] at hTable
      obtain ⟨next, hStep, hRest⟩ := exists_of_bind_eq_ok hTable
      rw [ih hRest]
      cases s with
      | label l offset =>
          obtain rfl := Except.ok.inj hStep
          rfl
      | command c =>
          simp only [enter] at hStep
          split at hStep
          · obtain rfl := Except.ok.inj hStep
            rfl
          · cases hStep

theorem eq_ofRecords_of_ofStatements? {statements : List Statement}
    (hTable : ofStatements? statements = .ok t) : t = ofRecords (definedLabels statements) :=
  eq_withRecords_of_foldlM_enter hTable

/-! ## All tables -/

/-- In every table that a program has or that a file gives, both directions fit
together: names are folded, a label has the address of its last definition or record,
and an address has a label exactly if some label has it, namely the first by its bytes.
The order in which the entries are gone through does not matter. -/
theorem lookups_consistent :
    (∀ statements t, ofStatements? statements = .ok t →
      t.Consistent (definedLabels statements)) ∧
    (∀ bytes o t, ObjectFile.ofBinary? bytes = some o → o.symbols = some t →
      ∃ records, IsBinaryFile binaryHeader o.image (some records) bytes ∧
        t.Consistent records) ∧
    ∀ text o t, ObjectFile.ofTextual? text = some o → o.symbols = some t →
      ∃ lines records, meaningfulLines text.toList = textualHeader.toList :: lines ∧
        IsTextualFile IsSignedColumn lines o.image (some records) ∧ t.Consistent records := by
  have hRead {o : ObjectFile} {t : SymbolTable} {labels : Option (List LabelRecord)}
      (hTable : o.symbols = some t) (hMade : Option.Rel MadeOf o.symbols labels) :
      ∃ records, labels = some records ∧ t.Consistent records := by
    rw [hTable] at hMade
    cases hMade with
    | some hRecords => exact ⟨_, rfl, hRecords.consistent⟩
  refine ⟨?_, ?_, ?_⟩
  · intro statements t hTable
    exact (madeOf_iff.2 (eq_ofRecords_of_ofStatements? hTable)).consistent
  · intro bytes o t hObject hTable
    obtain ⟨labels, hFile, hMade⟩ := ObjectFile.ofBinary?_eq_some_iff_isBinaryFile.1 hObject
    obtain ⟨records, rfl, hConsistent⟩ := hRead hTable hMade
    exact ⟨records, hFile, hConsistent⟩
  · intro text o t hObject hTable
    obtain ⟨lines, labels, hLines, hFile, hMade⟩ := ObjectFile.ofTextual?_eq_some_iff.1 hObject
    obtain ⟨records, rfl, hConsistent⟩ := hRead hTable hMade
    exact ⟨lines, records, hLines, hFile, hConsistent⟩

/-- Two labels for one address, and one of two that has been defined before. -/
def aliases : List Statement :=
  [.label ⟨"main", 0⟩ 0x200, .label ⟨"Main2", 6⟩ 0x202, .label ⟨"alias", 13⟩ 0x202,
    .label ⟨"MAIN", 20⟩ 0x204]

/-- The later definition counts, and of two labels the first by its bytes is given. -/
theorem lookups_consistent_aliases :
    ∃ t, ofStatements? aliases = .ok t ∧ t.address? "Main" = some 0x204 ∧
      (t.labelAt? 0x202).map (·.text) = some "alias" := by
  have hTable : ofStatements? aliases = .ok (ofRecords (definedLabels aliases)) := rfl
  have hConsistent := lookups_consistent.1 aliases _ hTable
  have hSameName : foldCase "MAIN" = foldCase "Main" := by
    apply String.toList_inj.1
    rw [Text.toList_foldCase, Text.toList_foldCase]
    decide
  have hLater : IsLastFor (definedLabels aliases) "Main" 0x204 :=
    ⟨[⟨"main", 0x200⟩, ⟨"Main2", 0x202⟩, ⟨"alias", 0x202⟩], "MAIN", [], rfl, hSameName,
      List.forall_mem_nil _⟩
  have hOther : ∀ r ∈ [LabelRecord.mk "MAIN" 0x204], foldCase r.name ≠ foldCase "alias" := by
    decide +kernel
  have hAlias : IsLastFor (definedLabels aliases) "alias" 0x202 :=
    ⟨[⟨"main", 0x200⟩, ⟨"Main2", 0x202⟩], "alias", [⟨"MAIN", 0x204⟩], rfl, rfl, hOther⟩
  refine ⟨_, hTable, (hConsistent.last _ _).2 hLater, ?_⟩
  apply (hConsistent.first _ _).2
  have hFolded : foldCase "alias" = "alias" := by decide +kernel
  refine ⟨mem_records_iff.2 ⟨hFolded, (hConsistent.last _ _).2 hAlias⟩, fun other hThere => ?_⟩
  obtain ⟨r, hMem, rfl⟩ := (hConsistent.names other).1 ⟨_, hThere⟩
  have hAll : ∀ r ∈ definedLabels aliases, toUtf8 "alias" ≤ toUtf8 (foldCase r.name) := by
    decide +kernel
  exact hAll r hMem

end SymbolTable

end Chip8.Asm

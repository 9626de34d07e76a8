import Chip8.Asm.ObjectFile.Binary
import Mathlib.Data.List.Basic
import Mathlib.Data.List.Induction

/-!
# Symbol tables as rows of records

Both forms of an object file write a table as a row of records and read it back by
entering one record after the other. A row whose names differ has each of its addresses
in the table that it makes, so the records of a table make that table again, whatever
order they are written in.

## Main definitions

* `SymbolTable.withRecords` — a table with further records entered.
* `DistinctNames` — no two records of a row are for one name.
* `IsLastFor`, `SymbolTable.MadeOf` — the last record for a name, and the table of
  these.

## Main results

* `mem_records_iff` — the records of a table are its addresses.
* `ofRecords_of_perm` — the records of a table in any order make that table.
* `mem_records_insert`, `mem_records_withRecords` — every record of a table was entered.
* `madeOf_iff` — the table of a row of records, by the last record for each name.
* `length_toUtf8_foldCase` — folding a name keeps its length in bytes.
-/

namespace Chip8.Asm

/-! ## Lengths of names -/

/-- The UTF-8 form of a text is the bytes of its characters in a row. -/
theorem toUtf8_eq_flatMap (s : String) :
    Text.toUtf8 s = s.toList.flatMap String.utf8EncodeChar := by
  rw [Text.toUtf8, ← String.utf8Encode_toList, List.utf8Encode, List.toList_data_toByteArray]

theorem length_flatMap_utf8EncodeChar (cs : List Char) :
    (cs.flatMap String.utf8EncodeChar).length = Text.byteLength cs := by
  induction cs with
  | nil => rfl
  | cons c cs ih =>
      rw [List.flatMap_cons, List.length_append, String.length_utf8EncodeChar, ih,
        Text.byteLength_cons]

/-- The UTF-8 form of a text has the length that its characters add up to. -/
theorem length_toUtf8 (s : String) : (Text.toUtf8 s).length = Text.byteLength s.toList := by
  rw [toUtf8_eq_flatMap, length_flatMap_utf8EncodeChar]

/-- Folding keeps the number of bytes of a name. -/
@[simp] theorem length_toUtf8_foldCase (s : String) :
    (Text.toUtf8 (Text.foldCase s)).length = (Text.toUtf8 s).length := by
  rw [length_toUtf8, length_toUtf8, Text.toList_foldCase, Text.byteLength_map_toLower]

/-! ## Rows of records -/

/-- No two records of the row are for one name. -/
def DistinctNames (records : List LabelRecord) : Prop :=
  records.Pairwise fun r s => Text.foldCase r.name ≠ Text.foldCase s.name

private theorem DistinctNames.perm {records records' : List LabelRecord} (h : DistinctNames records)
    (hPerm : records'.Perm records) : DistinctNames records' :=
  hPerm.symm.pairwise h fun hNe => hNe.symm

namespace SymbolTable

/-- The table with records entered one after the other. -/
def withRecords (t : SymbolTable) (records : List LabelRecord) : SymbolTable :=
  records.foldl (fun t r => t.insert r.name r.address) t

@[simp] theorem withRecords_nil (t : SymbolTable) : t.withRecords [] = t := rfl

@[simp] theorem withRecords_cons (t : SymbolTable) (r : LabelRecord)
    (records : List LabelRecord) :
    t.withRecords (r :: records) = (t.insert r.name r.address).withRecords records := rfl

theorem ofRecords_eq (records : List LabelRecord) :
    ofRecords records = empty.withRecords records := rfl

/-- A name that no record is for keeps its address. -/
theorem address?_withRecords_of_forall_ne {t : SymbolTable} {records : List LabelRecord}
    {label : String} (hNe : ∀ r ∈ records, Text.foldCase r.name ≠ Text.foldCase label) :
    (t.withRecords records).address? label = t.address? label := by
  induction records generalizing t with
  | nil => rfl
  | cons r records ih =>
      have hHead : Text.foldCase r.name ≠ Text.foldCase label := hNe r (by simp)
      rw [withRecords_cons, ih fun s hs => hNe s (by simp [hs]), address?_insert, if_neg hHead]

/-- Every record of a row without repeated names gives its name its address. -/
theorem address?_withRecords_of_mem {t : SymbolTable} {records : List LabelRecord}
    (hNames : DistinctNames records) {r : LabelRecord} (hr : r ∈ records) :
    (t.withRecords records).address? r.name = some r.address := by
  induction records generalizing t with
  | nil => simp at hr
  | cons s records ih =>
      have hSplit := List.pairwise_cons.1 hNames
      rw [withRecords_cons]
      rcases List.mem_cons.1 hr with rfl | hRest
      · have hNe : ∀ s ∈ records, Text.foldCase s.name ≠ Text.foldCase r.name :=
          fun s hs => (hSplit.1 s hs).symm
        rw [address?_withRecords_of_forall_ne hNe, address?_insert, if_pos rfl]
      · exact ih hSplit.2 hRest

/-! ## The records of a table -/

/-- The records of a table are its names with their addresses. -/
theorem mem_records_iff {t : SymbolTable} {r : LabelRecord} :
    r ∈ t.records ↔ Text.foldCase r.name = r.name ∧ t.address? r.name = some r.address := by
  have hList : ∀ p : Name × UInt16, p ∈ t.byAddress ↔ t.addresses[p.1]? = some p.2 := by
    intro p
    rw [byAddress, (List.mergeSort_perm _ _).mem_iff, toList,
      Std.ExtTreeMap.mem_toList_iff_getElem?_eq_some]
  rw [records, List.mem_map]
  constructor
  · rintro ⟨p, hp, rfl⟩
    refine ⟨p.1.folded, ?_⟩
    rw [address?, Name.ofString_text]
    exact (hList p).1 hp
  · rintro ⟨hFolded, hAddress⟩
    refine ⟨(Name.ofString r.name, r.address), (hList _).2 hAddress, ?_⟩
    show (⟨Text.foldCase r.name, r.address⟩ : LabelRecord) = r
    rw [hFolded]

private theorem distinctNames_records (t : SymbolTable) : DistinctNames t.records := by
  have hSorted : t.byAddress.Pairwise fun p q => ¬ compare p.1 q.1 = .eq :=
    (List.mergeSort_perm _ _).symm.pairwise Std.ExtTreeMap.distinct_keys_toList
      fun hNe hEq => hNe (Std.OrientedCmp.eq_symm hEq)
  refine List.pairwise_map.2 (hSorted.imp fun {p q} hNe => ?_)
  rw [p.1.folded, q.1.folded]
  intro hText
  exact hNe (Std.LawfulEqCmp.compare_eq_iff_eq.2 (Name.text_injective hText))

/-- The records of a table, in whatever order they are entered, make the table. -/
theorem ofRecords_of_perm {t : SymbolTable} {records : List LabelRecord}
    (hPerm : records.Perm t.records) : ofRecords records = t := by
  have hNames : DistinctNames records := (distinctNames_records t).perm hPerm
  refine ext_address? fun label => ?_
  rw [ofRecords_eq]
  cases hAddress : t.address? label with
  | some a =>
      have hFold : ∀ s : SymbolTable, s.address? (Text.foldCase label) = s.address? label := by
        intro s
        simp [address?, Name.ofString]
      have hMem : (⟨Text.foldCase label, a⟩ : LabelRecord) ∈ records := by
        rw [hPerm.mem_iff, mem_records_iff]
        exact ⟨Text.foldCase_foldCase label, by rw [hFold, hAddress]⟩
      rw [← hFold]
      exact address?_withRecords_of_mem hNames hMem
  | none =>
      have hNe : ∀ r ∈ records, Text.foldCase r.name ≠ Text.foldCase label := by
        intro r hr hSame
        have hThere := (mem_records_iff.1 (hPerm.mem_iff.1 hr)).2
        have hName : t.address? r.name = t.address? label := by
          simp [address?, Name.ofString, hSame]
        rw [hName, hAddress] at hThere
        cases hThere
      rw [address?_withRecords_of_forall_ne hNe, address?_empty]

/-- There are as many records as labels. -/
@[simp] theorem length_records (t : SymbolTable) : t.records.length = t.size := by
  rw [records, List.length_map, byAddress, (List.mergeSort_perm _ _).length_eq, toList,
    Std.ExtTreeMap.length_toList, size]

/-! ## Where the records of a table come from -/

@[simp] theorem records_empty : empty.records = [] := by
  refine List.eq_nil_iff_forall_not_mem.2 fun r hr => ?_
  simpa using (mem_records_iff.1 hr).2

/-- A record of a table with one more label is the new one, or was there before. -/
theorem mem_records_insert {t : SymbolTable} {label : String} {address : UInt16}
    {r : LabelRecord} (hr : r ∈ (t.insert label address).records) :
    r = ⟨Text.foldCase label, address⟩ ∨ r ∈ t.records := by
  have ⟨hFolded, hAddress⟩ := mem_records_iff.1 hr
  rw [address?_insert] at hAddress
  split at hAddress
  · rename_i hSame
    refine .inl ?_
    rw [hSame, hFolded, Option.some.inj hAddress]
  · exact .inr (mem_records_iff.2 ⟨hFolded, hAddress⟩)

/-- A record of a table was there at the start, or was entered with its address. -/
theorem mem_records_withRecords {t : SymbolTable} {records : List LabelRecord}
    {r : LabelRecord} (hr : r ∈ (t.withRecords records).records) :
    r ∈ t.records ∨ ∃ s ∈ records, r = ⟨Text.foldCase s.name, s.address⟩ := by
  induction records generalizing t with
  | nil => exact .inl hr
  | cons s records ih =>
      rcases ih hr with hHead | ⟨s', hs', rfl⟩
      · rcases mem_records_insert hHead with rfl | hThere
        · exact .inr ⟨s, by simp, rfl⟩
        · exact .inl hThere
      · exact .inr ⟨s', by simp [hs'], rfl⟩

/-- Entering a record adds at most one label. -/
theorem size_withRecords_le (t : SymbolTable) (records : List LabelRecord) :
    (t.withRecords records).size ≤ t.size + records.length := by
  induction records generalizing t with
  | nil => simp
  | cons r records ih =>
      have hRest := ih (t.insert r.name r.address)
      have hInsert : (t.insert r.name r.address).size ≤ t.size + 1 :=
        Std.ExtTreeMap.size_insert_le
      rw [withRecords_cons, List.length_cons]
      omega

end SymbolTable

/-! ## The last record for a name -/

/-- Of the records for a label, the last one has the address. -/
def IsLastFor (records : List LabelRecord) (label : String) (address : UInt16) : Prop :=
  ∃ front name back, records = front ++ ⟨name, address⟩ :: back ∧
    Text.foldCase name = Text.foldCase label ∧
    ∀ r ∈ back, Text.foldCase r.name ≠ Text.foldCase label

theorem not_isLastFor_nil {label : String} {address : UInt16} : ¬ IsLastFor [] label address := by
  rintro ⟨front, name, back, hRecords, -⟩
  simp at hRecords

/-- A further record is the last one for its name, and for no other. -/
theorem isLastFor_concat_iff {records : List LabelRecord} {r : LabelRecord} {label : String}
    {address : UInt16} :
    IsLastFor (records ++ [r]) label address ↔
      if Text.foldCase r.name = Text.foldCase label then r.address = address
      else IsLastFor records label address := by
  constructor
  · rintro ⟨front, name, back, hRecords, hName, hBack⟩
    rcases List.eq_nil_or_concat' back with rfl | ⟨back, last, rfl⟩
    · obtain ⟨-, rfl⟩ := List.append_inj' hRecords rfl |>.imp_right List.singleton_inj.1
      rw [if_pos hName]
    · rw [← List.cons_append, ← List.append_assoc] at hRecords
      obtain ⟨rfl, rfl⟩ := List.append_inj' hRecords rfl |>.imp_right List.singleton_inj.1
      rw [if_neg (hBack r (by simp))]
      exact ⟨front, name, back, rfl, hName, fun s hs => hBack s (by simp [hs])⟩
  · intro hLast
    split at hLast
    · rename_i hName
      obtain rfl := hLast
      exact ⟨records, r.name, [], rfl, hName, by simp⟩
    · rename_i hName
      rcases hLast with ⟨front, name, back, rfl, hSame, hBack⟩
      refine ⟨front, name, back ++ [r], by simp, hSame, fun s hs => ?_⟩
      rcases List.mem_append.1 hs with hBefore | hEnd
      · exact hBack s hBefore
      · rw [List.mem_singleton.1 hEnd]
        exact hName

namespace SymbolTable

/-- The names of the table are folded, and each has the address in the last of the
records for it. -/
structure MadeOf (t : SymbolTable) (records : List LabelRecord) : Prop where
  folded (r : LabelRecord) (hRecord : r ∈ t.records) : Text.foldCase r.name = r.name
  address (label : String) (address : UInt16) :
    t.address? label = some address ↔ IsLastFor records label address

private theorem address?_ofRecords_eq_some_iff {records : List LabelRecord} {label : String}
    {address : UInt16} :
    (ofRecords records).address? label = some address ↔ IsLastFor records label address := by
  induction records using List.reverseRecOn with
  | nil => simp [ofRecords, not_isLastFor_nil]
  | append_singleton records r ih =>
      have hStep : ofRecords (records ++ [r]) = (ofRecords records).insert r.name r.address := by
        simp [ofRecords]
      rw [hStep, address?_insert, isLastFor_concat_iff]
      split
      · exact Option.some_inj
      · exact ih

/-- The records make one table, the one into which they are entered in turn. -/
theorem madeOf_iff {t : SymbolTable} {records : List LabelRecord} :
    t.MadeOf records ↔ t = ofRecords records := by
  constructor
  · intro hMade
    refine ext_address? fun label => Option.ext fun address => ?_
    rw [hMade.address, address?_ofRecords_eq_some_iff]
  · rintro rfl
    exact ⟨fun r hRecord => (mem_records_iff.1 hRecord).1,
      fun label address => address?_ofRecords_eq_some_iff⟩

end SymbolTable

end Chip8.Asm

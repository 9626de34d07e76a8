import Chip8.Asm.AssemblyError
import Chip8.Asm.Statement
import Chip8.Text.Quoted
import Chip8.Text.Utf8
import Std.Data.ExtTreeMap

/-!
# Symbol tables

A symbol table maps the names of labels to addresses. Names differ only if they differ
after folding, so a table is keyed by folded names; their order is that of their UTF-8
bytes. A label that is entered twice keeps the address that was entered last.

Two tables are equal exactly if every name has the same address in both.

## Main definitions

* `Name` — a folded name; `Name.ofString`.
* `SymbolTable`, `SymbolTable.insert`, `address?`, `labelAt?`.
* `SymbolTable.byAddress` — the labels in the order of a listing.
* `SymbolTable.ofStatements?` — the table of a program.
* `SymbolTable.resolve` — an instruction with addresses in place of its labels.

## Main results

* `address?_insert` — what entering a label changes.
* `ext_address?` — a table is given by its addresses.
-/

namespace Chip8.Asm

/-! ## Names -/

/-- The name of a label, without regard to letter case. -/
structure Name where
  text : String
  folded : Text.foldCase text = text
  deriving DecidableEq

namespace Name

/-- The name that a word stands for. -/
def ofString (word : String) : Name := ⟨Text.foldCase word, Text.foldCase_foldCase word⟩

/-- The bytes by which names are ordered. -/
def bytes (n : Name) : List UInt8 := Text.toUtf8 n.text

theorem text_injective {a b : Name} (h : a.text = b.text) : a = b := by
  cases a
  cases b
  simpa using h

private theorem bytes_injective {a b : Name} (h : a.bytes = b.bytes) : a = b :=
  text_injective (Text.toUtf8_injective h)

instance : Ord Name := ⟨compareOn bytes⟩

instance : Std.TransOrd Name := inferInstanceAs (Std.TransCmp (compareOn bytes))

instance : Std.LawfulEqOrd Name where
  eq_of_compare h := bytes_injective (Std.LawfulEqOrd.eq_of_compare h)

/-- A name stands for itself. -/
@[simp] theorem ofString_text (n : Name) : ofString n.text = n := text_injective n.folded

end Name

/-! ## Tables -/

/-- The labels of a program with their addresses. -/
structure SymbolTable where
  addresses : Std.ExtTreeMap Name UInt16
  deriving DecidableEq

namespace SymbolTable

/-- The table without labels. -/
def empty : SymbolTable := ⟨∅⟩

instance : Inhabited SymbolTable := ⟨empty⟩

/-- The number of labels. -/
def size (t : SymbolTable) : Nat := t.addresses.size

/-- The address of a label. -/
def address? (t : SymbolTable) (label : String) : Option UInt16 :=
  t.addresses[Name.ofString label]?

/-- The table with one more label, or with a new address for it. -/
def insert (t : SymbolTable) (label : String) (address : UInt16) : SymbolTable :=
  ⟨t.addresses.insert (.ofString label) address⟩

/-- The labels with their addresses, in the order of their names. -/
def toList (t : SymbolTable) : List (Name × UInt16) := t.addresses.toList

/-- The labels in the order of a listing: by address, at one address by name. -/
def byAddress (t : SymbolTable) : List (Name × UInt16) :=
  t.toList.mergeSort fun a b => a.2 ≤ b.2

/-- The first label at an address, in the order of names. -/
def labelAt? (t : SymbolTable) (address : UInt16) : Option Name :=
  (t.toList.find? (·.2 = address)).map (·.1)

/-- The table as it is shown: quoted names with addresses, in the order of a listing. -/
def text (t : SymbolTable) : String :=
  let entry := fun (p : Name × UInt16) =>
    Text.quote p.1.text ++ ": 0x" ++ Text.hex 3 p.2.toNat
  "\x7b" ++ ", ".intercalate (t.byAddress.map entry) ++ "\x7d"

@[simp] theorem address?_empty (label : String) : empty.address? label = none := by
  simp [empty, address?]

/-- Entering a label changes the address of that label only. -/
theorem address?_insert (t : SymbolTable) (label query : String) (address : UInt16) :
    (t.insert label address).address? query =
      if Text.foldCase label = Text.foldCase query then some address else t.address? query := by
  simp only [address?, insert, Std.ExtTreeMap.getElem?_insert,
    Std.LawfulEqCmp.compare_eq_iff_eq]
  by_cases h : Text.foldCase label = Text.foldCase query
  · simp [h, Name.ofString]
  · have : Name.ofString label ≠ Name.ofString query := fun hEq => h (congrArg Name.text hEq)
    simp [h, this]

/-- A table is given by the addresses of its labels. -/
theorem ext_address? {s t : SymbolTable} (h : ∀ label, s.address? label = t.address? label) :
    s = t := by
  cases s with
  | mk a =>
    cases t with
    | mk b =>
      congr 1
      refine Std.ExtTreeMap.ext_getElem? fun n => ?_
      simpa [address?] using h n.text

/-! ## The table of a program -/

/-- Enters a statement: a label with its offset. An instruction changes nothing, but it
has to lie in the memory for programs. -/
def enter (t : SymbolTable) : Statement → Except AssemblyError SymbolTable
  | .label l offset => .ok (t.insert l.name offset)
  | .command c =>
    if programStart ≤ c.offset.toNat ∧ c.offset.toNat + 2 ≤ memorySize then .ok t
    else .error (.single .programTooLarge c.span)

/-- The table of a program. -/
def ofStatements? (statements : List Statement) : Except AssemblyError SymbolTable :=
  statements.foldlM enter empty

/-! ## Resolution -/

/-- A token with an address, written in base ten, in place of a label. -/
def resolveToken (t : SymbolTable) (token : Located) : Except AssemblyError Located :=
  match token.token with
  | .labelRef name =>
    match t.address? name with
    | some address => .ok { token with token := .decimal (Text.decimal address.toNat) }
    | none => .error (.single .missingLabel token.span)
  | _ => .ok token

/-- An instruction with addresses in place of its labels. -/
def resolve (t : SymbolTable) (c : Command) : Except AssemblyError Command := do
  let tokens ← c.tokens.mapM t.resolveToken
  return { c with tokens }

end SymbolTable

end Chip8.Asm

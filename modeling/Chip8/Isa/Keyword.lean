import Chip8.Text.Utf8

/-!
# Keywords and identifiers

An identifier of the assembly language is a keyword (a mnemonic, the word `reg`, or the
name of a special register) or an unknown word, which may then serve as a label.
Identifiers are case-insensitive: they are folded before they are looked up, and an
unknown word is kept in its folded form.

## Main definitions

* `Mnemonic`, `Special`, `Keyword`, `Ident`.
* `Keyword.spellings` — the keyword table; `I` has two spellings.
* `Ident.ofString`, `Ident.text` — reading and showing.
-/

namespace Chip8

/-- The name of an instruction. -/
inductive Mnemonic where
  | cls | syscall | call | ret | jmp | rjmp | seq | sneq | jkp | jknp | wk
  | mov | add | sub | subn | or | and | xor | shr | shl | brnd | drw
  | fx29 | fx33 | fx55 | fx65
  deriving DecidableEq, Repr

/-- A register with a name of its own. -/
inductive Special where
  /-- The address pointer `I`. -/
  | index
  /-- The delay timer. -/
  | delay
  /-- The sound timer. -/
  | sound
  deriving DecidableEq, Repr

namespace Special

/-- A special register as it is shown in a listing. -/
def text : Special → String
  | index => "I"
  | delay => "DELAY"
  | sound => "SND_DELAY"

end Special

/-- A reserved word. -/
inductive Keyword where
  | mnemonic (m : Mnemonic)
  | reg
  | special (s : Special)
  deriving DecidableEq, Repr

namespace Keyword

/-- Every spelling of every keyword, folded; the first spelling of a keyword is its main
one. -/
def spellings : List (String × Keyword) :=
  [("cls", mnemonic .cls), ("syscall", mnemonic .syscall), ("call", mnemonic .call),
    ("ret", mnemonic .ret), ("jmp", mnemonic .jmp), ("rjmp", mnemonic .rjmp),
    ("seq", mnemonic .seq), ("sneq", mnemonic .sneq), ("jkp", mnemonic .jkp),
    ("jknp", mnemonic .jknp), ("wk", mnemonic .wk), ("mov", mnemonic .mov),
    ("add", mnemonic .add), ("sub", mnemonic .sub), ("subn", mnemonic .subn),
    ("or", mnemonic .or), ("and", mnemonic .and), ("xor", mnemonic .xor),
    ("shr", mnemonic .shr), ("shl", mnemonic .shl), ("brnd", mnemonic .brnd),
    ("drw", mnemonic .drw), ("fx29", mnemonic .fx29), ("fx33", mnemonic .fx33),
    ("fx55", mnemonic .fx55), ("fx65", mnemonic .fx65), ("reg", reg),
    ("adp", special .index), ("i", special .index), ("delay", special .delay),
    ("snd_delay", special .sound)]

/-- The main spelling of a keyword, folded. -/
def spelling (k : Keyword) : String :=
  ((spellings.find? (·.2 = k)).map (·.1)).getD ""

/-- A keyword as it is shown: the main spelling in capitals. -/
def text (k : Keyword) : String := Text.raiseCase k.spelling

end Keyword

/-- A word of assembly text. -/
inductive Ident where
  | keyword (k : Keyword)
  | unknown (name : String)
  deriving DecidableEq, Repr

namespace Ident

/-- The identifier that a word stands for. -/
def ofString (word : String) : Ident :=
  match Keyword.spellings.lookup (Text.foldCase word) with
  | some k => keyword k
  | none => unknown (Text.foldCase word)

/-- An identifier as it is shown. -/
def text : Ident → String
  | keyword k => k.text
  | unknown name => name

/-- The mnemonic that an identifier is, if it is one. -/
def mnemonic? : Ident → Option Mnemonic
  | keyword (.mnemonic m) => some m
  | _ => none

/-- The special register that an identifier names, if it names one. -/
def special? : Ident → Option Special
  | keyword (.special s) => some s
  | _ => none

/-- Identifiers do not depend on letter case. -/
theorem ofString_foldCase (word : String) : ofString (Text.foldCase word) = ofString word := by
  simp [ofString]

end Ident

end Chip8

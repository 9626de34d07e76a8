import Chip8.Isa.Field
import Chip8.Isa.Opcode

/-!
# Decoded instructions

A word that matches an entry of the opcode table is an instruction. Its fields are named
by their place in the word, written as four digits in base sixteen: `x` and `y` are the
second and third digit, `n`, `nn` and `nnn` the last one, two and three.

## Main definitions

* `Instruction`, `Instruction.decode?`.
* `Instruction.x`, `y`, `n`, `nn`, `nnn` — the fields.
* `Instruction.text` — the instruction in assembly.
-/

namespace Chip8

/-- An instruction word together with its entry in the opcode table. -/
structure Instruction where
  entry : Entry
  word : UInt16
  deriving DecidableEq, Repr

namespace Instruction

/-- The instruction that a word stands for, if some entry matches it. -/
def decode? (word : UInt16) : Option Instruction :=
  (Entry.find? word).map fun entry => ⟨entry, word⟩

theorem decode?_eq_some_iff {word : UInt16} {i : Instruction} :
    decode? word = some i ↔ Entry.find? word = some i.entry ∧ i.word = word := by
  unfold decode?
  constructor
  · intro h
    obtain ⟨entry, hFound, rfl⟩ := Option.map_eq_some_iff.1 h
    exact ⟨hFound, rfl⟩
  · rintro ⟨hFound, rfl⟩
    rw [hFound]
    rfl

/-- What the instruction does. -/
def operation (i : Instruction) : Operation := i.entry.operation

/-- The first register operand: bits 8 to 11. -/
def x (i : Instruction) : Register := ⟨i.word.toNat / 256 % 16, Nat.mod_lt _ (by decide)⟩

/-- The second register operand: bits 4 to 7. -/
def y (i : Instruction) : Register := ⟨i.word.toNat / 16 % 16, Nat.mod_lt _ (by decide)⟩

/-- The low four bits. -/
def n (i : Instruction) : Nat := i.word.toNat % 16

/-- The low eight bits. -/
def nn (i : Instruction) : UInt8 := UInt8.ofNat (i.word.toNat % 256)

/-- The low twelve bits. -/
def nnn (i : Instruction) : UInt16 := UInt16.ofNat (i.word.toNat % 4096)

/-- The operands as they are written, with the space in front of the first. -/
def operandText (i : Instruction) : String :=
  let special := (i.entry.special.map Special.text).getD "?"
  let address := "0x" ++ Text.hex 3 i.nnn.toNat
  match i.entry.format with
  | .plain => ""
  | .value => " " ++ address
  | .register => " " ++ i.x.text
  | .registerValue => " " ++ i.x.text ++ ", " ++ Text.decimal i.nn.toNat
  | .registerRegister => " " ++ i.x.text ++ ", " ++ i.y.text
  | .registerRegisterValue => " " ++ i.x.text ++ ", " ++ i.y.text ++ ", " ++ Text.decimal i.n
  | .registerSpecial => " " ++ i.x.text ++ ", " ++ special
  | .specialRegister => " " ++ special ++ ", " ++ i.x.text
  | .specialValue => " " ++ special ++ ", " ++ address

/-- The instruction in assembly. -/
def text (i : Instruction) : String := (Keyword.mnemonic i.entry.mnemonic).text ++ i.operandText

end Instruction

end Chip8

/-!
# Operand formats

An instruction has at most three operands, each of one of three kinds. The kinds in
their order make up its format, and the format alone fixes which bits of the instruction
word hold operands and how many tokens the instruction takes in assembly: a register is
written as four tokens (`reg`, a bracket, a number, a bracket), any other operand as
one, and commas separate the operands.

## Main definitions

* `OperandKind`, `Format`, `Format.operands`.
* `Format.valueBits`, `Format.mask` — the operand bits of the word, and all the others.
* `Format.tokenCount`, `Format.operandPositions` — the layout in tokens.
* `Format.fields` — the layout in the instruction word.
-/

namespace Chip8

/-- What an operand is. -/
inductive OperandKind where
  /-- A general register. -/
  | register
  /-- A number or a label. -/
  | value
  /-- One of the registers with a name of their own. -/
  | special
  deriving DecidableEq, Repr

namespace OperandKind

/-- The number of tokens that an operand takes. -/
def width : OperandKind → Nat
  | register => 4
  | value => 1
  | special => 1

/-- The distance from the first token of an operand to the one that tells its value. -/
def lead : OperandKind → Nat
  | register => 2
  | value => 0
  | special => 0

/-- The name under which a kind is listed. -/
def name : OperandKind → String
  | register => "Reg"
  | value => "Val"
  | special => "Spc"

end OperandKind

/-- The kinds of the operands of an instruction, in order. -/
inductive Format where
  | plain
  | value
  | register
  | registerValue
  | registerRegister
  | registerRegisterValue
  | registerSpecial
  | specialRegister
  | specialValue
  deriving DecidableEq, Repr

namespace Format

/-- Every format. -/
def all : List Format :=
  [plain, value, register, registerValue, registerRegister, registerRegisterValue,
    registerSpecial, specialRegister, specialValue]

/-- The kinds that make up a format. -/
def operands : Format → List OperandKind
  | plain => []
  | value => [.value]
  | register => [.register]
  | registerValue => [.register, .value]
  | registerRegister => [.register, .register]
  | registerRegisterValue => [.register, .register, .value]
  | registerSpecial => [.register, .special]
  | specialRegister => [.special, .register]
  | specialValue => [.special, .value]

/-- A format is its list of kinds. -/
theorem operands_injective {f g : Format} (h : f.operands = g.operands) : f = g := by
  cases f <;> cases g <;> simp_all [operands]

/-- The name under which a format is listed. -/
def name : Format → String
  | plain => "Cmd"
  | value => "CmdVal"
  | register => "CmdReg"
  | registerValue => "CmdRegVal"
  | registerRegister => "CmdRegReg"
  | registerRegisterValue => "CmdRegRegVal"
  | registerSpecial => "CmdRegSpc"
  | specialRegister => "CmdSpcReg"
  | specialValue => "CmdSpcVal"

/-- The width of the value operand, if the format has one: what the registers leave
free. -/
def valueBits : Format → Option Nat
  | value => some 12
  | specialValue => some 12
  | registerValue => some 8
  | registerRegisterValue => some 4
  | _ => none

/-- The bits of an instruction word that do not belong to an operand. -/
def mask : Format → UInt16
  | plain => 0xFFFF
  | value => 0xF000
  | register => 0xF0FF
  | registerValue => 0xF000
  | registerRegister => 0xF00F
  | registerRegisterValue => 0xF000
  | registerSpecial => 0xF0FF
  | specialRegister => 0xF0FF
  | specialValue => 0xF000

/-- The number of tokens of an instruction: the mnemonic, the operands, the commas. -/
def tokenCount (f : Format) : Nat :=
  f.operands.foldl (fun count k => count + k.width) 1 + (f.operands.length - 1)

/-- Kinds with the places of the tokens that tell their values, the first operand
beginning at `start`. -/
def positionsFrom (start : Nat) : List OperandKind → List (OperandKind × Nat)
  | [] => []
  | k :: ks => (k, start + k.lead) :: positionsFrom (start + k.width + 1) ks

/-- The operands with the places of their values among the tokens of the instruction. -/
def operandPositions (f : Format) : List (OperandKind × Nat) := positionsFrom 1 f.operands

end Format

/-! ## Operands in the instruction word -/

/-- Where an operand is written, and where it goes. -/
structure OperandField where
  kind : OperandKind
  /-- The place of its value among the tokens of the instruction. -/
  position : Nat
  /-- The number of bits for it in the word. -/
  bits : Nat
  /-- The number of bits below it in the word. -/
  shift : Nat
  deriving DecidableEq, Repr

namespace Format

/-- Operands with their fields: registers take four bits each, from bit `shift + 4`
down; a value takes the lowest `low` bits; a special register takes none. -/
def fieldsFrom (low : Nat) : Nat → List (OperandKind × Nat) → List OperandField
  | _, [] => []
  | shift, (.register, position) :: more =>
    ⟨.register, position, 4, shift⟩ :: fieldsFrom low (shift - 4) more
  | shift, (.value, position) :: more => ⟨.value, position, low, 0⟩ :: fieldsFrom low shift more
  | shift, (.special, position) :: more =>
    ⟨.special, position, 0, 0⟩ :: fieldsFrom low shift more

/-- The operands with their fields. -/
def fields (f : Format) : List OperandField :=
  fieldsFrom (f.valueBits.getD 0) 8 f.operandPositions

end Format

end Chip8

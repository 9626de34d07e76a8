import Chip8.Isa.Format
import Chip8.Isa.Keyword

/-!
# The opcode table

One table of 35 entries is the single source of the instruction set: the assembler looks
an entry up by what is written (mnemonic, format, special register), the decoder finds
an entry by the word. In the decoder's direction the order of the table matters. The
words of `CLS` and `RET` also match the entry of `SYSCALL`, which therefore comes behind
them.

The decoder compares fewer bits than the operands leave free: `5XYN` and `9XYN` are
decoded whatever `N` is, and the shifts whatever `Y` is.

## Main definitions

* `Operation`, `Entry`, `opcodeTable`.
* `Entry.dispatchMask`, `Entry.find?` — from a word to its entry.
* `Entry.lookup?`, `Entry.named` — from assembly to an entry.
-/

namespace Chip8

/-- Programs are loaded at, and run from, this address. -/
def programStart : Nat := 0x200

/-- The number of addresses that a word can hold; memory has fewer bytes. -/
def addressCount : Nat := UInt16.size

/-- The number of bytes of memory. -/
def memorySize : Nat := 4096

/-- The number of bytes that a program can take. -/
def programCapacity : Nat := memorySize - programStart

/-- What an instruction does. -/
inductive Operation where
  | sys
  | clearScreen
  | ret
  | jump
  | call
  | skipEqValue
  | skipNeValue
  | skipEqRegister
  | loadValue
  | addValue
  | copy
  | or
  | and
  | xor
  | add
  | subtract
  | shiftRight
  | subtractFrom
  | shiftLeft
  | skipNeRegister
  | loadIndex
  | jumpOffset
  | random
  | draw
  | skipKey
  | skipNotKey
  | readDelay
  | waitKey
  | setDelay
  | setSound
  | addIndex
  | fontIndex
  | decimalDigits
  | storeRegisters
  | loadRegisters
  deriving DecidableEq, Repr

namespace Operation

/-- The name under which an operation is listed. -/
def name : Operation → String
  | sys => "Sys"
  | clearScreen => "Cls"
  | ret => "Ret"
  | jump => "Jmp"
  | call => "Call"
  | skipEqValue => "SkipEqImm"
  | skipNeValue => "SkipNeImm"
  | skipEqRegister => "SkipEqReg"
  | loadValue => "LoadImm"
  | addValue => "AddImm"
  | copy => "Move"
  | or => "Or"
  | and => "And"
  | xor => "Xor"
  | add => "AddReg"
  | subtract => "Sub"
  | shiftRight => "ShiftRight"
  | subtractFrom => "SubRev"
  | shiftLeft => "ShiftLeft"
  | skipNeRegister => "SkipNeReg"
  | loadIndex => "LoadAddr"
  | jumpOffset => "JumpOffset"
  | random => "Random"
  | draw => "Draw"
  | skipKey => "SkipKey"
  | skipNotKey => "SkipNotKey"
  | readDelay => "ReadDelay"
  | waitKey => "WaitKey"
  | setDelay => "SetDelay"
  | setSound => "SetSound"
  | addIndex => "AddAddr"
  | fontIndex => "FontAddr"
  | decimalDigits => "Bcd"
  | storeRegisters => "StoreRegs"
  | loadRegisters => "LoadRegs"

end Operation

/-- One form of instruction. -/
structure Entry where
  operation : Operation
  mnemonic : Mnemonic
  format : Format
  /-- The special register among the operands. -/
  special : Option Special
  /-- The instruction word with all operand bits zero. -/
  base : UInt16
  deriving DecidableEq, Repr

/-- Every form of instruction, in the order in which the decoder tries them. -/
def opcodeTable : List Entry :=
  [⟨.clearScreen, .cls, .plain, none, 0x00E0⟩,
    ⟨.ret, .ret, .plain, none, 0x00EE⟩,
    ⟨.sys, .syscall, .value, none, 0x0000⟩,
    ⟨.jump, .jmp, .value, none, 0x1000⟩,
    ⟨.call, .call, .value, none, 0x2000⟩,
    ⟨.skipEqValue, .seq, .registerValue, none, 0x3000⟩,
    ⟨.skipNeValue, .sneq, .registerValue, none, 0x4000⟩,
    ⟨.skipEqRegister, .seq, .registerRegister, none, 0x5000⟩,
    ⟨.loadValue, .mov, .registerValue, none, 0x6000⟩,
    ⟨.addValue, .add, .registerValue, none, 0x7000⟩,
    ⟨.copy, .mov, .registerRegister, none, 0x8000⟩,
    ⟨.or, .or, .registerRegister, none, 0x8001⟩,
    ⟨.and, .and, .registerRegister, none, 0x8002⟩,
    ⟨.xor, .xor, .registerRegister, none, 0x8003⟩,
    ⟨.add, .add, .registerRegister, none, 0x8004⟩,
    ⟨.subtract, .sub, .registerRegister, none, 0x8005⟩,
    ⟨.shiftRight, .shr, .register, none, 0x8006⟩,
    ⟨.subtractFrom, .subn, .registerRegister, none, 0x8007⟩,
    ⟨.shiftLeft, .shl, .register, none, 0x800E⟩,
    ⟨.skipNeRegister, .sneq, .registerRegister, none, 0x9000⟩,
    ⟨.loadIndex, .mov, .specialValue, some .index, 0xA000⟩,
    ⟨.jumpOffset, .rjmp, .value, none, 0xB000⟩,
    ⟨.random, .brnd, .registerValue, none, 0xC000⟩,
    ⟨.draw, .drw, .registerRegisterValue, none, 0xD000⟩,
    ⟨.skipKey, .jkp, .register, none, 0xE09E⟩,
    ⟨.skipNotKey, .jknp, .register, none, 0xE0A1⟩,
    ⟨.readDelay, .mov, .registerSpecial, some .delay, 0xF007⟩,
    ⟨.waitKey, .wk, .register, none, 0xF00A⟩,
    ⟨.setDelay, .mov, .specialRegister, some .delay, 0xF015⟩,
    ⟨.setSound, .mov, .specialRegister, some .sound, 0xF018⟩,
    ⟨.addIndex, .add, .specialRegister, some .index, 0xF01E⟩,
    ⟨.fontIndex, .fx29, .register, none, 0xF029⟩,
    ⟨.decimalDigits, .fx33, .register, none, 0xF033⟩,
    ⟨.storeRegisters, .fx55, .register, none, 0xF055⟩,
    ⟨.loadRegisters, .fx65, .register, none, 0xF065⟩]

namespace Entry

/-- The bits of a word that tell its entry. The leading digit selects a family, and the
families `0`, `8`, `E` and `F` have a selector in the low bits as well. -/
def dispatchMask (e : Entry) : UInt16 :=
  let family := e.base >>> 12
  if family = 0x0 ∧ e.format = .plain then 0xF0FF
  else if family = 0x8 then 0xF00F
  else if family = 0xE ∨ family = 0xF then 0xF0FF
  else 0xF000

/-- Whether the selecting bits of the word are those of the entry. -/
def Matches (e : Entry) (word : UInt16) : Prop := word &&& e.dispatchMask = e.base

instance (e : Entry) (word : UInt16) : Decidable (e.Matches word) :=
  inferInstanceAs (Decidable (_ = _))

/-- The entry of an instruction word: the first that matches. -/
def find? (word : UInt16) : Option Entry := opcodeTable.find? (·.Matches word)

/-- The entry of an instruction as it is written. -/
def lookup? (mnemonic : Ident) (format : Format) (special : Option Special) : Option Entry :=
  opcodeTable.find? fun e =>
    some e.mnemonic = mnemonic.mnemonic? ∧ e.format = format ∧ e.special = special

/-- The entries with a given mnemonic, in table order. -/
def named (mnemonic : Ident) : List Entry :=
  opcodeTable.filter fun e => some e.mnemonic = mnemonic.mnemonic?

/-- The number of operands of a mnemonic. -/
def arity? (mnemonic : Ident) : Option Nat :=
  (named mnemonic).head?.map (·.format.operands.length)

/-- The entries of a mnemonic do not differ in the number of operands. -/
theorem uniform_arity :
    ∀ e ∈ opcodeTable, ∀ e' ∈ opcodeTable, e.mnemonic = e'.mnemonic →
      e.format.operands.length = e'.format.operands.length := by
  decide

/-- What is written determines the entry. -/
theorem eq_of_written :
    ∀ e ∈ opcodeTable, ∀ e' ∈ opcodeTable, e.mnemonic = e'.mnemonic → e.format = e'.format →
      e.special = e'.special → e = e' := by
  decide

/-- An entry has a special register exactly if its format has a place for one. -/
theorem special_mem_operands_iff :
    ∀ e ∈ opcodeTable, e.special.isSome ↔ OperandKind.special ∈ e.format.operands := by
  decide

/-- Every selecting bit is outside the operands, and a base has no other bits. -/
theorem base_and_masks :
    ∀ e ∈ opcodeTable, e.base &&& e.dispatchMask = e.base ∧
      e.dispatchMask &&& e.format.mask = e.dispatchMask := by
  decide

end Entry

end Chip8

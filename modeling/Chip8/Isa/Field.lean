import Chip8.Text.Numeral

/-!
# Fields of an instruction word

An operand occupies a field of a fixed number of bits, and a value that needs more bits
is refused. Registers are numbered by the field of four bits.

## Main definitions

* `fieldSize`, `Field`, `Field.ofWord` — the values of a field, and the check.
* `Register`, `Register.ofByte` — the sixteen registers `V0`-`VF`.
-/

namespace Chip8

/-- The number of values that `bits` bits can hold. -/
def fieldSize (bits : Nat) : Nat := 1 <<< bits

/-- A value is too large for a field of `bits` bits. -/
structure FieldOverflow where
  bits : Nat
  deriving DecidableEq, Repr

namespace FieldOverflow

/-- What is said about a value that is too large. -/
def message (e : FieldOverflow) : String :=
  "value does not fit in a " ++ Text.decimal e.bits ++ "-bit field"

/-- The range of the field, as advice. -/
def help (e : FieldOverflow) : String :=
  Text.decimal e.bits ++ "-bit fields hold values from 0 to " ++ Text.decimal (fieldSize e.bits - 1)

end FieldOverflow

/-- A value that fits in `bits` bits. -/
structure Field (bits : Nat) where
  value : UInt16
  fits : value.toNat < fieldSize bits
  deriving DecidableEq

namespace Field

/-- The word as the value of a field, if it fits. -/
def ofWord (bits : Nat) (word : UInt16) : Except FieldOverflow (Field bits) :=
  if hFits : word.toNat < fieldSize bits then .ok ⟨word, hFits⟩ else .error ⟨bits⟩

/-- The value in base ten. -/
def text {bits : Nat} (f : Field bits) : String := Text.decimal f.value.toNat

end Field

/-- A general register `V0`-`VF`. -/
abbrev Register := Fin 16

namespace Register

/-- The register `V0`, the offset of a computed jump. -/
def zero : Register := ⟨0, by decide⟩

/-- The register `VF`, which receives the flags. -/
def flag : Register := ⟨15, by decide⟩

/-- The register with the given number, if there is one. -/
def ofByte (n : UInt8) : Except FieldOverflow Register :=
  if hInside : n.toNat < 16 then .ok ⟨n.toNat, hInside⟩ else .error ⟨4⟩

/-- A register as it is written in assembly. -/
def text (r : Register) : String := "reg[0x" ++ Text.hex 1 r.val ++ "]"

end Register

end Chip8

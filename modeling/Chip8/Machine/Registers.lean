import Chip8.Isa.Field
import Chip8.Machine.Memory

/-!
# Registers

The machine has sixteen registers of eight bits. Besides single registers, the first of
them up to a given one are read and set as a block.

## Main definitions

* `Registers`, `Registers.get`, `Registers.set` — single registers.
* `Registers.through`, `Registers.setFirst` — the first registers as a block.

## Main results

* `get_set`, `get_setFirst` — what setting changes, register by register.
* `getElem?_through` — what a block of registers holds.
-/

namespace Chip8

/-- The values of the registers. -/
structure Registers where
  values : Vector UInt8 16
  deriving DecidableEq

namespace Registers

/-- All registers at zero. -/
def zero : Registers := ⟨Vector.replicate 16 0⟩

/-- The value of a register. -/
def get (rs : Registers) (r : Register) : UInt8 := rs.values.get r

/-- The registers with another value in one of them. -/
def set (rs : Registers) (r : Register) (value : UInt8) : Registers :=
  ⟨rs.values.setIfInBounds r.val value⟩

/-- The values in the order of the registers. -/
def toList (rs : Registers) : List UInt8 := rs.values.toList

/-- The values of the registers up to and including `r`. -/
def through (rs : Registers) (r : Register) : List UInt8 := rs.toList.take (r.val + 1)

/-- The registers with other values in the first of them. -/
def setFirst (rs : Registers) (values : List UInt8) : Registers :=
  ⟨Memory.splice 0 values rs.values⟩

/-- Registers are given by their values. -/
theorem ext_get {rs rs' : Registers} (h : ∀ r, rs.get r = rs'.get r) : rs = rs' := by
  cases rs with
  | mk v =>
    cases rs' with
    | mk v' => exact congrArg mk (Vector.ext fun i hi => h ⟨i, hi⟩)

@[simp] theorem get_zero (r : Register) : zero.get r = 0 := by
  show (Vector.replicate 16 (0 : UInt8))[r.val] = 0
  simp

/-- Setting a register changes that register only. -/
@[simp] theorem get_set (rs : Registers) (r q : Register) (value : UInt8) :
    (rs.set r value).get q = if r = q then value else rs.get q := by
  show (rs.values.setIfInBounds r.val value)[q.val] = if r = q then value else rs.values[q.val]
  rw [Vector.getElem_setIfInBounds]
  simp [Fin.ext_iff]

@[simp] theorem length_toList (rs : Registers) : rs.toList.length = 16 := by
  simp [toList]

theorem getElem?_toList (rs : Registers) (r : Register) : rs.toList[r.val]? = some (rs.get r) := by
  show rs.values.toList[r.val]? = some rs.values[r.val]
  simp

@[simp] theorem length_through (rs : Registers) (r : Register) :
    (rs.through r).length = r.val + 1 := by
  have := r.isLt
  simp only [through, List.length_take, length_toList]
  omega

/-- A block of registers holds the value of each. -/
theorem getElem?_through (rs : Registers) {r q : Register} (hLe : q ≤ r) :
    (rs.through r)[q.val]? = some (rs.get q) := by
  have hInside : q.val < r.val + 1 := Nat.lt_succ_of_le hLe
  rw [through, List.getElem?_take_of_lt hInside, getElem?_toList]

/-- Setting the first registers changes those only. -/
theorem get_setFirst (rs : Registers) (values : List UInt8) (q : Register) :
    (rs.setFirst values).get q = values[q.val]?.getD (rs.get q) := by
  show (Memory.splice 0 values rs.values)[q.val] = values[q.val]?.getD rs.values[q.val]
  rw [Memory.getElem_splice]
  by_cases h : q.val < values.length <;> simp [h]

end Registers

end Chip8

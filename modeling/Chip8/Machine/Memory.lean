import Chip8.Isa.Word
import Chip8.Machine.Fault

/-!
# Memory

The machine has 4096 bytes of memory. An access to a block of bytes is refused as a
whole if it reaches past the end; a block of no bytes is refused only if it begins past
the end.

## Main definitions

* `Memory`, `Memory.get`, `Memory.set` — single bytes.
* `Memory.zero`, `Memory.clear` — memory without contents.
* `Memory.word?` — two bytes as a word, the high byte first.
* `Memory.block`, `Memory.store`, `Memory.fill` — blocks.

Everything about a memory is said through `get?`, which gives the byte at any address.

## Main results

* `get?_set`, `get?_of_store_eq_ok` — what writing changes, byte by byte.
* `getElem?_of_block_eq_ok` — what reading a block gives.
* `block_eq_ok_iff`, `block_eq_error_iff`, `store_eq_ok_iff` — which blocks are inside.
-/

namespace Chip8

/-- The contents of memory. -/
structure Memory where
  bytes : Vector UInt8 memorySize
  deriving DecidableEq

namespace Memory

/-- Memory with zeros everywhere. -/
def zero : Memory := ⟨Vector.replicate memorySize 0⟩

/-- Memory when every byte has been set to zero. -/
def clear (m : Memory) : Memory := ⟨m.bytes.map fun _ => 0⟩

/-- The byte at an address, if there is one. -/
def get? (m : Memory) (address : Nat) : Option UInt8 := m.bytes[address]?

/-- The byte at an address. -/
def get (m : Memory) (address : Nat) : Except Fault UInt8 :=
  match m.get? address with
  | some byte => .ok byte
  | none => .error (.memoryOutOfBounds address)

/-- Memory with another byte at an address. -/
def set (m : Memory) (address : Nat) (byte : UInt8) : Except Fault Memory :=
  if hInside : address < memorySize then .ok ⟨m.bytes.set address byte hInside⟩
  else .error (.memoryOutOfBounds address)

/-- The word at an address, if both its bytes are inside. -/
def word? (m : Memory) (address : Nat) : Option UInt16 := do
  let high ← m.get? address
  let low ← m.get? (address + 1)
  return joinBytes high low

/-- The number of bytes that are not zero. -/
def used (m : Memory) : Nat := m.bytes.countP (· ≠ 0)

/-- A summary of the contents. -/
def text (m : Memory) : String :=
  "Mem \x7b len: " ++ Text.decimal memorySize ++ ", nonzero: " ++ Text.decimal m.used ++ " \x7d"

/-- A memory is given by its bytes. -/
theorem ext_get? {m m' : Memory} (h : ∀ address, m.get? address = m'.get? address) : m = m' := by
  cases m with
  | mk bytes =>
    cases m' with
    | mk bytes' =>
      congr 1
      refine Vector.ext fun i hi => ?_
      have hSame := h i
      simp only [get?, Vector.getElem?_eq_getElem hi, Option.some.injEq] at hSame
      exact hSame

theorem get?_zero (address : Nat) :
    zero.get? address = if address < memorySize then some 0 else none := by
  by_cases hInside : address < memorySize <;> simp [get?, zero, hInside]

/-- Nothing is left of what a memory held before it was cleared. -/
theorem clear_eq_zero (m : Memory) : m.clear = zero := by
  refine ext_get? fun address => ?_
  by_cases hInside : address < memorySize <;> simp [get?, clear, zero, hInside]

theorem get?_isSome (m : Memory) (address : Nat) :
    (m.get? address).isSome ↔ address < memorySize := by
  simp [get?]

/-- There is a word at an address if its second byte is still inside. -/
theorem word?_isSome (m : Memory) (address : Nat) :
    (m.word? address).isSome ↔ address + 1 < memorySize := by
  have hHigh := m.get?_isSome address
  have hLow := m.get?_isSome (address + 1)
  unfold word?
  cases hFirst : m.get? address with
  | none =>
    rw [hFirst] at hHigh
    simp only [Option.isSome_none, Bool.false_eq_true, false_iff] at hHigh
    simp only [Option.bind_eq_bind, Option.bind_none, Option.isSome_none, Bool.false_eq_true,
      false_iff]
    omega
  | some byte =>
    rw [← hLow]
    cases m.get? (address + 1) with
    | none => rfl
    | some byte' => rfl

/-- Setting a byte changes that byte only. -/
theorem get?_set {m m' : Memory} {address : Nat} {byte : UInt8} (h : m.set address byte = .ok m')
    (query : Nat) :
    m'.get? query = if address = query then some byte else m.get? query := by
  unfold set at h
  split at h
  · rename_i hInside
    simp only [Except.ok.injEq] at h
    subst h
    simp only [get?, Vector.getElem?_set]
  · simp at h

/-! ## Blocks -/

/-- The bytes with others written over them from `address` on, as far as there are
any. -/
def splice {n : Nat} (address : Nat) : List UInt8 → Vector UInt8 n → Vector UInt8 n
  | [], bytes => bytes
  | b :: bs, bytes => splice (address + 1) bs (bytes.setIfInBounds address b)

/-- Splicing changes the bytes of the block and no others. -/
theorem getElem_splice {n : Nat} (address : Nat) (bs : List UInt8) (bytes : Vector UInt8 n)
    (i : Nat) (hi : i < n) :
    (splice address bs bytes)[i] =
      if h : address ≤ i ∧ i - address < bs.length then bs[i - address] else bytes[i] := by
  induction bs generalizing address bytes with
  | nil => simp [splice]
  | cons b bs ih =>
    simp only [splice, ih, Vector.getElem_setIfInBounds, List.length_cons]
    by_cases hBelow : address ≤ i
    · by_cases hHere : address = i
      · subst hHere
        have hPast : ¬ address + 1 ≤ address := by omega
        simp [hPast]
      · have hLater : address + 1 ≤ i := by omega
        have hIndex : i - address = (i - (address + 1)) + 1 := by omega
        simp [hBelow, hLater, hHere, hIndex]
    · have : ¬ address + 1 ≤ i := by omega
      have : ¬ address = i := by omega
      simp [*]

/-- Refuses a block that reaches past the end. -/
def checkBlock (address length : Nat) : Except Fault Unit :=
  if address + length ≤ memorySize then .ok ()
  else .error (.memoryOutOfBounds (max address memorySize))

/-- The bytes of a block. -/
def block (m : Memory) (address length : Nat) : Except Fault (List UInt8) := do
  checkBlock address length
  return (m.bytes.toList.drop address).take length

/-- Memory with other bytes in a block. -/
def store (m : Memory) (address : Nat) (bs : List UInt8) : Except Fault Memory := do
  checkBlock address bs.length
  return ⟨splice address bs m.bytes⟩

/-- Memory with one byte throughout a block. -/
def fill (m : Memory) (address length : Nat) (byte : UInt8) : Except Fault Memory := do
  checkBlock address length
  m.store address (List.replicate length byte)

theorem block_eq_ok_iff {m : Memory} {address length : Nat} {bs : List UInt8} :
    m.block address length = .ok bs ↔
      address + length ≤ memorySize ∧ (m.bytes.toList.drop address).take length = bs := by
  unfold block checkBlock
  by_cases hInside : address + length ≤ memorySize <;>
    simp [hInside, bind, Except.bind, pure, Except.pure]

/-- A block is refused if it reaches past the end, by the first address outside or,
where the block begins further behind, by its own. -/
theorem block_eq_error_iff {m : Memory} {address length : Nat} {fault : Fault} :
    m.block address length = .error fault ↔
      memorySize < address + length ∧
        fault = .memoryOutOfBounds (max address memorySize) := by
  unfold block checkBlock
  by_cases hInside : address + length ≤ memorySize
  · have hWithin : ¬ memorySize < address + length := Nat.not_lt.2 hInside
    simp [hInside, hWithin, bind, Except.bind, pure, Except.pure]
  · simp [hInside, bind, Except.bind, eq_comm, Nat.lt_of_not_le hInside]

theorem store_eq_ok_iff {m m' : Memory} {address : Nat} {bs : List UInt8} :
    m.store address bs = .ok m' ↔
      address + bs.length ≤ memorySize ∧ ⟨splice address bs m.bytes⟩ = m' := by
  unfold store checkBlock
  by_cases hInside : address + bs.length ≤ memorySize <;>
    simp [hInside, bind, Except.bind, pure, Except.pure]

theorem length_of_block_eq_ok {m : Memory} {address length : Nat} {bs : List UInt8}
    (h : m.block address length = .ok bs) : bs.length = length := by
  obtain ⟨hInside, rfl⟩ := block_eq_ok_iff.1 h
  simp only [List.length_take, List.length_drop, Vector.length_toList]
  omega

/-- A block consists of the bytes from its address on. -/
theorem getElem?_of_block_eq_ok {m : Memory} {address length : Nat} {bs : List UInt8}
    (h : m.block address length = .ok bs) {i : Nat} (hLt : i < length) :
    bs[i]? = m.get? (address + i) := by
  obtain ⟨hInside, rfl⟩ := block_eq_ok_iff.1 h
  simp [get?, hLt]

/-- Storing a block changes the bytes of the block and no others. -/
theorem get?_of_store_eq_ok {m m' : Memory} {address : Nat} {bs : List UInt8}
    (h : m.store address bs = .ok m') (query : Nat) :
    m'.get? query =
      if address ≤ query ∧ query - address < bs.length then bs[query - address]?
      else m.get? query := by
  obtain ⟨hInside, rfl⟩ := store_eq_ok_iff.1 h
  by_cases hq : query < memorySize
  · by_cases hWithin : address ≤ query ∧ query - address < bs.length <;>
      simp [get?, hq, getElem_splice, hWithin]
  · have : ¬ (address ≤ query ∧ query - address < bs.length) := by omega
    simp [get?, hq, this]

end Memory

instance : GetElem Memory Nat UInt8 (fun _ address => address < memorySize) where
  getElem m address hInside := m.bytes[address]

end Chip8

import Chip8.Proofs.Machine.Failing

/-!
# Storing and loading registers

The registers up to a given one are stored at the address pointer and loaded from there,
one byte for each and the given register included. Storing moves the address pointer
behind the block, loading leaves it alone.

What either of them does is a relation between the cores before and behind it, in which
each of the two blocks is said byte by byte. That one undoes the other is a fact about
these relations: the bytes of the block are the registers up to the given one, and
nothing else has changed that would have to be put back, the address pointer apart.

## Main definitions

* `Core.StoresThrough`, `Core.LoadsThrough` — what storing and loading change.

## Main results

* `Instruction.exists_storesThrough`, `Instruction.exists_loadsThrough` — the two
  instructions succeed where the block is inside, and change that.
* `Core.LoadsThrough.registers_eq`, `Core.StoresThrough.memory_eq` — each undoes the
  other.
* `Machine.register_block_inverse` — the same of the steps of a machine.
-/

namespace Chip8

open Change

namespace Core

variable {c d after last : Core} {x : Register}

/-- The registers up to `x` stand in memory from the address pointer on, which is moved
behind them. -/
structure StoresThrough (c : Core) (x : Register) (after : Core) : Prop where
  stored (q : Register) (hThrough : q ≤ x) :
    after.memory.get? (c.index.toNat + q.val) = some (c.registers.get q)
  elsewhere (address : Nat)
    (hOutside : address < c.index.toNat ∨ c.index.toNat + x.val < address) :
    after.memory.get? address = c.memory.get? address
  registers : after.registers = c.registers
  index : after.index.toNat = c.index.toNat + (x.val + 1)

/-- The registers up to `x` have the bytes from the address pointer on. -/
structure LoadsThrough (c : Core) (x : Register) (after : Core) : Prop where
  loaded (q : Register) (hThrough : q ≤ x) :
    c.memory.get? (c.index.toNat + q.val) = some (after.registers.get q)
  above (q : Register) (hAbove : x < q) : after.registers.get q = c.registers.get q
  memory : after.memory = c.memory
  index : after.index = c.index

/-- A word in front of the block stays. -/
theorem StoresThrough.word?_eq (hStored : c.StoresThrough x after) {address : Nat}
    (hInFront : address + 1 < c.index.toNat) :
    after.memory.word? address = c.memory.word? address := by
  rw [Memory.word?, Memory.word?, hStored.elsewhere address (.inl (by omega)),
    hStored.elsewhere (address + 1) (.inl hInFront)]

/-- Loading puts the registers back that were stored. -/
theorem LoadsThrough.registers_eq (hStored : c.StoresThrough x after)
    (hLoaded : d.LoadsThrough x last) (hMemory : d.memory = after.memory)
    (hIndex : d.index = c.index)
    (hAbove : ∀ q, x < q → d.registers.get q = c.registers.get q) :
    last.registers = c.registers := by
  refine Registers.ext_get fun q => ?_
  by_cases hThrough : q ≤ x
  · have hLast := hLoaded.loaded q hThrough
    rw [hMemory, hIndex, hStored.stored q hThrough] at hLast
    exact (Option.some.inj hLast).symm
  · have hBehind : x < q := Nat.lt_of_not_le hThrough
    exact (hLoaded.above q hBehind).trans (hAbove q hBehind)

/-- Storing puts the bytes back that were loaded. -/
theorem StoresThrough.memory_eq (hLoaded : c.LoadsThrough x after)
    (hStored : d.StoresThrough x last) (hMemory : d.memory = after.memory)
    (hIndex : d.index = c.index)
    (hThrough : ∀ q ≤ x, d.registers.get q = after.registers.get q) :
    last.memory = c.memory := by
  refine Memory.ext_get? fun address => ?_
  by_cases hBlock : c.index.toNat ≤ address ∧ address ≤ c.index.toNat + x.val
  · -- A byte of the block stands where one of the registers does.
    have hSmall := x.isLt
    let q : Register := ⟨address - c.index.toNat, by omega⟩
    have hPlace : c.index.toNat + q.val = address := Nat.add_sub_cancel' hBlock.1
    have hUpTo : q ≤ x := Fin.le_def.2 (by omega)
    have hLast := hStored.stored q hUpTo
    rw [hThrough q hUpTo, hIndex, hPlace] at hLast
    rw [hLast, ← hLoaded.loaded q hUpTo, hPlace]
  · have hOutside : address < d.index.toNat ∨ d.index.toNat + x.val < address := by
      rw [hIndex]
      omega
    rw [hStored.elsewhere address hOutside, hMemory, hLoaded.memory]

end Core

/-! ## The two instructions -/

namespace Instruction

variable {i : Instruction} {c : Core}

/-- Registers are stored where there is room for them. -/
theorem exists_storesThrough (hOp : i.operation = .storeRegisters)
    (hInside : c.index.toNat + i.x.val + 1 ≤ memorySize) :
    ∃ after, i.execute.on c = (.ok (), after) ∧ c.StoresThrough i.x after := by
  have hLength : (c.registers.through i.x).length = i.x.val + 1 := Registers.length_through _ _
  have hEnd : c.index.toNat + (c.registers.through i.x).length ≤ memorySize := by omega
  have hStored : c.memory.store c.index.toNat (c.registers.through i.x) =
      .ok ⟨Memory.splice c.index.toNat (c.registers.through i.x) c.memory.bytes⟩ :=
    Memory.store_eq_ok_iff.2 ⟨hEnd, rfl⟩
  have hBytes := Memory.get?_of_store_eq_ok hStored
  have hDone : ∃ after, i.execute.on c = (.ok (), after) ∧
      after.memory = ⟨Memory.splice c.index.toNat (c.registers.through i.x) c.memory.bytes⟩ ∧
      after.registers = c.registers ∧ after.index = c.index + UInt16.ofNat (i.x.val + 1) := by
    unfold execute
    rw [on_bind_of_ok (on_get c)]
    simp only [hOp]
    rw [on_bind, on_writeBlock, Memory.block_eq_ok_iff.2 ⟨hEnd, rfl⟩]
    exact ⟨_, rfl, rfl, rfl, rfl⟩
  rcases hDone with ⟨after, hDone, hMemory, hRegisters, hIndex⟩
  refine ⟨after, hDone, fun q hThrough => ?_, fun address hOutside => ?_, hRegisters, ?_⟩
  · have hUpTo : q.val ≤ i.x.val := hThrough
    rw [hMemory, hBytes, if_pos (by omega), Nat.add_sub_cancel_left,
      Registers.getElem?_through _ hThrough]
  · rw [hMemory, hBytes, if_neg (by omega)]
  · -- The address pointer is at most at the end of the memory, and does not wrap there.
    have hFar : c.index.toNat + (i.x.val + 1) < UInt16.size := by
      simp only [memorySize, UInt16.size] at *
      omega
    have hCount : (UInt16.ofNat (i.x.val + 1)).toNat = i.x.val + 1 :=
      UInt16.toNat_ofNat_of_lt' (by omega)
    rw [hIndex, UInt16.toNat_add, hCount]
    exact Nat.mod_eq_of_lt hFar

/-- Registers are loaded where there is a byte for each. -/
theorem exists_loadsThrough (hOp : i.operation = .loadRegisters)
    (hInside : c.index.toNat + i.x.val + 1 ≤ memorySize) :
    ∃ after, i.execute.on c = (.ok (), after) ∧ c.LoadsThrough i.x after := by
  let bytes := (c.memory.bytes.toList.drop c.index.toNat).take (i.x.val + 1)
  have hRead : c.memory.block c.index.toNat (i.x.val + 1) = .ok bytes :=
    Memory.block_eq_ok_iff.2 ⟨hInside, rfl⟩
  have hDone : ∃ after, i.execute.on c = (.ok (), after) ∧
      after.registers = c.registers.setFirst bytes ∧ after.memory = c.memory ∧
      after.index = c.index := by
    unfold execute
    rw [on_bind_of_ok (on_get c)]
    simp only [hOp]
    rw [on_bind, on_readBlock, hRead]
    exact ⟨_, rfl, rfl, rfl, rfl⟩
  rcases hDone with ⟨after, hDone, hRegisters, hMemory, hIndex⟩
  refine ⟨after, hDone, fun q hThrough => ?_, fun q hAbove => ?_, hMemory, hIndex⟩
  · have hUpTo : q.val < i.x.val + 1 := Nat.lt_succ_of_le hThrough
    have hByte : (c.memory.get? (c.index.toNat + q.val)).isSome := by
      rw [Memory.get?_isSome]
      omega
    rcases Option.isSome_iff_exists.1 hByte with ⟨byte, hByte⟩
    rw [hRegisters, Registers.get_setFirst, Memory.getElem?_of_block_eq_ok hRead hUpTo, hByte]
    rfl
  · have hEnd : bytes.length ≤ q.val := by
      rw [Memory.length_of_block_eq_ok hRead]
      exact hAbove
    rw [hRegisters, Registers.get_setFirst, List.getElem?_eq_none hEnd]
    rfl

end Instruction

/-! ## Steps -/

namespace Machine

variable {m : Machine} {i : Instruction}

private theorem exists_step_storesThrough (hFetch : m.fetch = .ok i)
    (hOp : i.operation = .storeRegisters)
    (hInside : m.index.toNat + i.x.val + 1 ≤ memorySize) :
    ∃ m', m.step = (m', none) ∧ m.StoresThrough i.x m'.toCore := by
  rcases Instruction.exists_storesThrough (c := (m.deliver.begin i).toCore) hOp hInside with
    ⟨after, hDone, hStores⟩
  rw [← fetch_deliver] at hFetch
  exact ⟨_, step_of_execute_ok hFetch hDone, hStores.stored, hStores.elsewhere,
    hStores.registers, hStores.index⟩

private theorem exists_step_loadsThrough (hFetch : m.fetch = .ok i)
    (hOp : i.operation = .loadRegisters)
    (hInside : m.index.toNat + i.x.val + 1 ≤ memorySize) :
    ∃ m', m.step = (m', none) ∧ m.LoadsThrough i.x m'.toCore := by
  rcases Instruction.exists_loadsThrough (c := (m.deliver.begin i).toCore) hOp hInside with
    ⟨after, hDone, hLoads⟩
  rw [← fetch_deliver] at hFetch
  exact ⟨_, step_of_execute_ok hFetch hDone, hLoads.loaded, hLoads.above, hLoads.memory,
    hLoads.index⟩

/-- Where the block of the registers up to `VX` is inside the memory, a step stores or
loads it and changes nothing else of the memory, the registers and the address pointer,
apart from moving the pointer behind what it has stored. After storing, let the
registers up to `VX` be overwritten and the address pointer be put back: a step that
loads as many leaves all sixteen registers as they were. After loading, a step that
stores as many at the same address leaves the memory as it was. -/
theorem register_block_inverse (hFetch : m.fetch = .ok i)
    (hInside : m.index.toNat + i.x.val + 1 ≤ memorySize) :
    (i.operation = .storeRegisters →
      ∃ m', m.step = (m', none) ∧ m.StoresThrough i.x m'.toCore ∧
        ∀ (n : Machine) (j : Instruction), n.fetch = .ok j → j.operation = .loadRegisters →
          j.x = i.x → n.memory = m'.memory → n.index = m.index →
          (∀ q, i.x < q → n.registers.get q = m'.registers.get q) →
          ∃ n', n.step = (n', none) ∧ n'.registers = m.registers) ∧
    (i.operation = .loadRegisters →
      ∃ m', m.step = (m', none) ∧ m.LoadsThrough i.x m'.toCore ∧
        ∀ (n : Machine) (j : Instruction), n.fetch = .ok j → j.operation = .storeRegisters →
          j.x = i.x → n.memory = m'.memory → n.index = m.index →
          (∀ q ≤ i.x, n.registers.get q = m'.registers.get q) →
          ∃ n', n.step = (n', none) ∧ n'.memory = m.memory) := by
  constructor
  · intro hOp
    rcases exists_step_storesThrough hFetch hOp hInside with ⟨m', hStep, hStores⟩
    refine ⟨m', hStep, hStores, fun n j hNext hLoad hSame hMemory hIndex hAbove => ?_⟩
    rcases exists_step_loadsThrough hNext hLoad (by rw [hSame, hIndex]; exact hInside) with
      ⟨n', hStep', hLoads⟩
    rw [hSame] at hLoads
    refine ⟨n', hStep', hLoads.registers_eq hStores hMemory hIndex fun q hBehind => ?_⟩
    rw [hAbove q hBehind, hStores.registers]
  · intro hOp
    rcases exists_step_loadsThrough hFetch hOp hInside with ⟨m', hStep, hLoads⟩
    refine ⟨m', hStep, hLoads, fun n j hNext hStore hSame hMemory hIndex hThrough => ?_⟩
    rcases exists_step_storesThrough hNext hStore (by rw [hSame, hIndex]; exact hInside) with
      ⟨n', hStep', hStores⟩
    rw [hSame] at hStores
    exact ⟨n', hStep', hStores.memory_eq hLoads hMemory hIndex hThrough⟩

/-- A machine that stores all registers in the last bytes of the memory and loads them
again. -/
def storingAll : Machine :=
  { Machine.start none 0 with
    memory := memoryOf [0xFF, 0x55, 0xFF, 0x65]
    registers := Registers.zero.setFirst [1, 2, 3, 4, 5, 6, 7, 8, 9, 10, 11, 12, 13, 14, 15, 16]
    index := 0xFF0
    program := [0xFF, 0x55, 0xFF, 0x65]
    program_fits := by decide }

/-- The machine at the second instruction, without anything in its registers and with
the address pointer back at the block. -/
def loadingAll : Machine :=
  { storingAll.step.1 with registers := .zero, index := 0xFF0 }

/-- The last register goes to the last byte of the memory and comes back from there. -/
theorem register_block_inverse_all :
    (∃ m', storingAll.step = (m', none) ∧ m'.memory.get? 0xFFF = some 16 ∧
        m'.index.toNat = 0x1000) ∧
      ∃ n', loadingAll.step = (n', none) ∧ n'.registers = storingAll.registers ∧
        n'.memory = loadingAll.memory := by
  have hFetch : storingAll.fetch =
      .ok ⟨⟨.storeRegisters, .fx55, .register, none, 0xF055⟩, 0xFF55⟩ :=
    Core.fetch_of_word (by decide +kernel) (by decide +kernel) (by decide +kernel)
  rcases (register_block_inverse hFetch (by decide)).1 rfl with ⟨m', hStep, hStores, hBack⟩
  have hMemory : loadingAll.memory = m'.memory := by
    unfold loadingAll
    rw [hStep]
  have hPlace : loadingAll.pc = 0x202 := by decide +kernel
  have hWord : loadingAll.memory.word? loadingAll.pc.toNat = some 0xFF65 := by
    rw [hMemory, hPlace, hStores.word?_eq (by decide)]
    decide +kernel
  have hFetch' : loadingAll.fetch =
      .ok ⟨⟨.loadRegisters, .fx65, .register, none, 0xF065⟩, 0xFF65⟩ :=
    Core.fetch_of_word (by rw [hPlace]; decide +kernel) hWord (by decide +kernel)
  rcases (register_block_inverse hFetch' (by decide)).2 rfl with ⟨n', hStep', hLoads, -⟩
  have hNoneAbove (q : Register) : ¬ (15 : Register) < q := by
    have hSmall := q.isLt
    rw [Fin.lt_def]
    show ¬ 15 < q.val
    omega
  rcases hBack loadingAll _ hFetch' rfl rfl hMemory rfl
    (fun q hAbove => absurd hAbove (hNoneAbove q)) with ⟨n'', hStep'', hRegisters⟩
  obtain rfl : n' = n'' := congrArg Prod.fst (hStep'.symm.trans hStep'')
  exact ⟨⟨m', hStep, hStores.stored (15 : Register) (by decide), hStores.index⟩, n', hStep',
    hRegisters, hLoads.memory⟩

end Machine

end Chip8

import Chip8.Proofs.Machine.KeyDelivery
import Chip8.Proofs.Machine.Limit

/-!
# Machines that are well-formed

Whatever a host does to a machine into which a program was loaded, and whatever the
program does to itself, the program counter stays near the memory, the frames on the
call stack are those of calls inside the memory, the keypad holds zeros and ones, and
the latest word is an instruction, unless there was none yet.

All this is true behind a reset, and no step ends it: an instruction is fetched from
inside the memory, so that a frame tells where it was, and where it leads to is bounded
by the twelve bits of an address and the eight bits of a register.

## Main definitions

* `Frame.WellFormed`, `Keypad.WellFormed`, `Machine.WellFormed`.

## Main results

* `Machine.WellFormed.step` — steps leave a machine well-formed.
* `Machine.lasting_wellFormed` — so does all that a host can do.
* `Machine.wellFormed_of_leads` — machines that are reached from a program, and their
  addresses.
-/

namespace Chip8

/-- The frame is that of a call inside the memory for programs. -/
structure Frame.WellFormed (f : Frame) : Prop where
  even : f.caller.toNat % 2 = 0
  inside : 0x200 ≤ f.caller.toNat ∧ f.caller.toNat ≤ 0xFFE
  behind : f.returnAddress.toNat = f.caller.toNat + 2
  callee : f.callee.toNat ≤ 0xFFF

/-- No slot holds another number than zero or one. -/
def Keypad.WellFormed (k : Keypad) : Prop :=
  ∀ (key : Nat) (hInside : key < 16), k.slots[key] = 0 ∨ k.slots[key] = 1

/-- What is true of a machine into which a program was loaded. -/
structure Machine.WellFormed (m : Machine) : Prop where
  pc : m.pc.toNat ≤ 0x10FE
  frames : ∀ frame ∈ m.stack, frame.WellFormed
  keypad : m.keypad.WellFormed
  opcode : m.opcode = 0 ∨ ∃ i, Instruction.decode? m.opcode = some i

/-! ## Parts -/

/-- A return to a frame comes to an even address behind the first instruction. -/
theorem Frame.WellFormed.returnAddress {f : Frame} (hFrame : f.WellFormed) :
    f.returnAddress.toNat % 2 = 0 ∧ 0x202 ≤ f.returnAddress.toNat ∧
      f.returnAddress.toNat ≤ 0x1000 := by
  have hEven := hFrame.even
  have hInside := hFrame.inside
  rw [hFrame.behind]
  omega

namespace Keypad

variable {k : Keypad}

private theorem wellFormed_released : released.WellFormed := by
  intro key hInside
  exact .inl (Vector.getElem_replicate hInside)

theorem WellFormed.apply (hKeypad : k.WellFormed) (e : KeyEvent) : (k.apply e).WellFormed := by
  intro key hInside
  simp only [Keypad.apply, Vector.getElem_setIfInBounds]
  by_cases hKey : e.key.toNat = key
  · rw [if_pos hKey]
    cases e with
    | press => exact .inr rfl
    | release => exact .inl rfl
  · rw [if_neg hKey]
    exact hKeypad key hInside

/-- Key events are delivered one after the other. -/
theorem WellFormed.foldl (hKeypad : k.WellFormed) (events : List KeyEvent) :
    (events.foldl Keypad.apply k).WellFormed := by
  induction events generalizing k with
  | nil => exact hKeypad
  | cons e events ih => exact ih (hKeypad.apply e)

end Keypad

/-- An instruction does nothing to the keypad but release a key. -/
theorem Instruction.keypad_of_execute {i : Instruction} {c after : Core}
    (hKeypad : c.keypad.WellFormed) (hDone : i.execute.on c = (.ok (), after)) :
    after.keypad.WellFormed := by
  rcases keypad_eq_of_execute hDone with hKept | ⟨-, hReleased⟩
  · rw [hKept]
    exact hKeypad
  · rw [hReleased]
    exact hKeypad.apply _

theorem Instruction.on_execute_addIndex {i : Instruction} (hOp : i.operation = .addIndex)
    (c : Core) : i.execute.on c =
      (.ok (), { c.setFlag (bit (0xFFF < c.index + (c.registers.get i.x).toUInt16)) with
        index := c.index + (c.registers.get i.x).toUInt16 }) := by
  simp [execute, hOp, Change.on_bind]

private theorem Instruction.on_execute_jump {i : Instruction} (hOp : i.operation = .jump)
    (c : Core) :
    i.execute.on c = (.ok (), { c with pc := i.nnn }) := by
  simp [execute, hOp, Change.on_bind]

private theorem Instruction.on_execute_loadValue {i : Instruction} (hOp : i.operation = .loadValue)
    (c : Core) : i.execute.on c = (.ok (), c.setRegister i.x i.nn) := by
  simp [execute, hOp, Change.on_bind]

namespace Machine

variable {m m' : Machine} {i : Instruction}

namespace WellFormed

/-- Nothing that leads from the machine goes further than a jump with an offset. -/
theorem target_le (hWell : m.WellFormed) (hInside : m.pc.toNat ≤ 0xFFE) :
    i.target m.deliver.toCore ≤ 0x10FE := by
  have hAddress := i.toNat_nnn_le
  have hOffset := (m.deliver.registers.get Register.zero).toNat_lt
  have hPc : m.deliver.pc.toNat ≤ 0xFFE := hInside
  unfold Instruction.target
  split
  · omega
  · omega
  · omega
  · split
    · omega
    · rename_i frame rest hStack
      have hTop : frame ∈ m.stack := (stack_deliver m).symm.trans hStack ▸ List.mem_cons_self
      have hBack := (hWell.frames frame hTop).returnAddress
      omega
  · split
    · omega
    · omega

theorem deliver (hWell : m.WellFormed) : m.deliver.WellFormed where
  pc := hWell.pc
  frames := hWell.frames
  keypad := hWell.keypad.foldl m.pending
  opcode := hWell.opcode

private theorem frames_of_step (hWell : m.WellFormed) (hStep : m.step = (m', none)) :
    ∀ frame ∈ m'.stack, frame.WellFormed := by
  rcases stack_of_step hStep with
    ⟨i, hFetch, ⟨-, hPushed⟩ | ⟨-, top, hTop, -⟩ | ⟨-, hKept⟩⟩
  · have hInside := inside_of_fetch hFetch
    rw [hPushed, List.forall_mem_cons]
    exact ⟨⟨hInside.1, hInside.2, (computesExactly hFetch).fetched, i.toNat_nnn_le⟩,
      hWell.frames⟩
  · have hFrames := hWell.frames
    rw [hTop, List.forall_mem_cons] at hFrames
    exact hFrames.2
  · rw [hKept]
    exact hWell.frames

/-- Steps leave a machine well-formed, also where they fail. -/
theorem step (hWell : m.WellFormed) : m.step.1.WellFormed := by
  rcases hStep : m.step with ⟨m', _ | fault⟩
  · rcases exists_of_step_ok hStep with ⟨i, after, hFetch, hDone, hLeft⟩
    refine ⟨?_, hWell.frames_of_step hStep, ?_, ?_⟩
    · show m'.pc.toNat ≤ 0x10FE
      rw [(computesExactly hFetch).target hStep]
      exact hWell.target_le (inside_of_fetch hFetch).2.2
    · show m'.keypad.WellFormed
      rw [hLeft]
      have hKeypad := Instruction.keypad_of_execute (c := (m.deliver.begin i).toCore)
        hWell.deliver.keypad hDone
      exact hKeypad
    · show m'.opcode = 0 ∨ _
      rw [hLeft]
      exact .inr ⟨i, (Core.of_fetch hFetch).2.2⟩
  · rw [eq_deliver_of_step_fault hStep]
    exact hWell.deliver

end WellFormed

theorem lasting_wellFormed : Lasting WellFormed where
  step hWell := hWell.step
  note hWell _ _ := ⟨hWell.pc, hWell.frames, hWell.keypad, hWell.opcode⟩
  reset m := by
    have hStart : (UInt16.ofNat programStart).toNat ≤ 0x10FE := by decide
    exact ⟨hStart, by simp [reset], Keypad.wellFormed_released, .inl rfl⟩
  send hWell _ := ⟨hWell.pc, hWell.frames, hWell.keypad, hWell.opcode⟩
  operate hWell e := ⟨hWell.pc, hWell.frames, hWell.keypad.apply e, hWell.opcode⟩
  pass hWell _ := ⟨hWell.pc, hWell.frames, hWell.keypad, hWell.opcode⟩
  renew hWell _ := ⟨hWell.pc, hWell.frames, hWell.keypad, hWell.opcode⟩

/-! ## The sum that wraps -/

/-- A program that adds 255 to the address pointer again and again. -/
def countingUp : List UInt8 := [0x60, 0xFF, 0xF0, 0x1E, 0x12, 0x02]

/-- The machine has this program and stands at the addition. -/
structure CountsUp (m : Machine) : Prop where
  memory : m.memory = memoryOf countingUp
  pc : m.pc = 0x202
  added : m.registers.get 0 = 0xFF

/-- The instruction in front, which loads the number. -/
def loading : Instruction := ⟨⟨.loadValue, .mov, .registerValue, none, 0x6000⟩, 0x60FF⟩

/-- The addition. -/
def addition : Instruction :=
  ⟨⟨.addIndex, .add, .specialRegister, some .index, 0xF01E⟩, 0xF01E⟩

/-- The jump back to it. -/
def jumpBack : Instruction := ⟨⟨.jump, .jmp, .value, none, 0x1000⟩, 0x1202⟩

private theorem loading_x : loading.x = 0 := by decide

private theorem addition_x : addition.x = 0 := by decide

private theorem jumpBack_nnn : jumpBack.nnn = 0x202 := by decide

/-- An instruction of the program is fetched where it stands. -/
private theorem fetch_of_countingUp {k : Nat} (hk : k < 3)
    (hMemory : m.memory = memoryOf countingUp)
    (hPc : m.pc = UInt16.ofNat (programStart + 2 * k))
    (hWord : (wordsOf countingUp)[k]? = some i.word)
    (hCode : Instruction.decode? i.word = some i) : m.fetch = .ok i := by
  have hPlace : m.pc.toNat = programStart + 2 * k := by
    rw [hPc, UInt16.toNat_ofNat', Nat.mod_eq_of_lt (by simp only [programStart]; omega)]
  have hOn : ¬ Core.OffProgram m.pc := by
    simp only [Core.OffProgram, programStart] at *
    omega
  have hInside : 2 * k + 1 < countingUp.length := by
    show 2 * k + 1 < 6
    omega
  refine Core.fetch_of_word hOn ?_ hCode
  rw [hMemory, hPlace, word?_memoryOf (by decide) hInside, hWord]

theorem CountsUp.fetch (hCounts : CountsUp m) : m.fetch = .ok addition :=
  fetch_of_countingUp (by decide : 1 < 3) hCounts.memory hCounts.pc rfl (by decide +kernel)

/-- One turn of the program. -/
theorem CountsUp.turn (hCounts : CountsUp m) :
    ∃ m', m.after? 2 = some m' ∧ CountsUp m' ∧ m'.index = m.index + 255 := by
  have hAdd := step_of_execute_ok (m := m) hCounts.fetch (Instruction.on_execute_addIndex rfl _)
  rcases hAdded : m.step with ⟨added, fault⟩
  rw [hAdded, addition_x] at hAdd
  obtain ⟨hLeft, rfl⟩ := Prod.mk.inj hAdd
  have hMemory : added.memory = memoryOf countingUp := by
    rw [hLeft]
    exact hCounts.memory
  have hPc : added.pc = 0x204 := by
    rw [hLeft]
    exact congrArg (· + 2) hCounts.pc
  have hIndex : added.index = m.index + 255 := by
    rw [hLeft]
    exact congrArg (fun value => m.index + value.toUInt16) hCounts.added
  have hRegister : added.registers.get 0 = 0xFF := by
    rw [hLeft]
    exact (Registers.get_set _ _ _ _).trans ((if_neg (by decide)).trans hCounts.added)
  have hFetch' : added.deliver.fetch = .ok jumpBack :=
    fetch_of_countingUp (by decide : 2 < 3) hMemory hPc rfl (by decide +kernel)
  have hJump := step_of_execute_ok hFetch' (Instruction.on_execute_jump rfl _)
  rw [jumpBack_nnn] at hJump
  exact ⟨_, (after?_succ_of_still_step hAdded 1).trans (after?_succ_of_still_step hJump 0),
    ⟨hMemory, rfl, hRegister⟩, hIndex⟩

private theorem CountsUp.turns (hCounts : CountsUp m) (k : Nat) :
    ∃ m', m.after? (2 * k) = some m' ∧ CountsUp m' ∧
      m'.index = m.index + UInt16.ofNat (255 * k) := by
  induction k with
  | zero => exact ⟨m, rfl, hCounts, (UInt16.add_zero m.index).symm⟩
  | succ k ih =>
      rcases ih with ⟨now, hNow, hCountsNow, hIndex⟩
      rcases hCountsNow.turn with ⟨m', hTurn, hCounts', hIndex'⟩
      refine ⟨m', (after?_add_still hNow 2).trans hTurn, hCounts', ?_⟩
      rw [hIndex', hIndex, Nat.mul_succ, UInt16.ofNat_add, ← UInt16.add_assoc]
      rfl

/-- The machine into which the program was loaded. -/
def countingFrom : Machine :=
  reset { Machine.start none 0 with program := countingUp, program_fits := by decide }

private theorem memory_countingFrom : countingFrom.memory = memoryOf countingUp :=
  congrArg (·.memory) (toCore_reset _)

/-- The first instruction of the program leads to the addition. -/
theorem exists_countsUp :
    ∃ m, countingFrom.ready.after? 1 = some m ∧ CountsUp m ∧ m.index = 0 := by
  have hFetch : countingFrom.ready.deliver.fetch = .ok loading :=
    fetch_of_countingUp (by decide : 0 < 3) memory_countingFrom rfl rfl (by decide +kernel)
  have hStep := step_of_execute_ok hFetch (Instruction.on_execute_loadValue rfl _)
  rw [loading_x] at hStep
  refine ⟨_, after?_succ_of_still_step hStep 0, ⟨memory_countingFrom, rfl, ?_⟩, rfl⟩
  exact Registers.get_set _ _ _ _

/-- The host can lead a machine to where the address pointer wraps. -/
theorem exists_wrapping_addIndex :
    ∃ last i, Leads countingFrom last ∧ last.fetch = .ok i ∧ i.operation = .addIndex ∧
      65536 ≤ i.pointer last.toCore := by
  rcases exists_countsUp with ⟨m, hFirst, hCounts, hZero⟩
  -- Behind 257 turns, the address pointer is the largest number of 16 bits.
  rcases hCounts.turns 257 with ⟨last, hLast, hCounts', hIndex⟩
  have hRun : countingFrom.runWithLimit 515 = ⟨{ last with pause := .tripwire }, .paused⟩ :=
    runWithLimit_of_no_breakpoints rfl ((after?_add_still hFirst 514).trans hLast)
  have hLeads := Leads.act (.refl countingFrom) (.call (.runWithLimit 515) 0)
    (fun tripwire hSome => absurd hSome (by simp [Action.tripwire?]))
  have hMachine : ((Action.call (.runWithLimit 515) 0).on countingFrom).machine =
      { last with pause := .tripwire } := congrArg Run.machine hRun
  rw [hMachine] at hLeads
  refine ⟨_, addition, hLeads, hCounts'.fetch, rfl, ?_⟩
  show 65536 ≤ last.index.toNat + (last.registers.get addition.x).toNat
  rw [addition_x, hCounts'.added, hIndex, hZero]
  decide

/-! ## Machines that are reached -/

/-- A machine to which a host leads from a loaded program is well-formed, and so is the
machine at every step on the way. A return continues at an even address behind the first
instruction, and nothing that a step computes of addresses wraps, but for the sum of the
address pointer and a register, which can. -/
theorem wellFormed_of_leads {m₀ first m : Machine} {program : List UInt8}
    (hLoad : m₀.load program = .ok first) (hLeads : Leads first m) :
    m.WellFormed ∧
    (∀ i m', m.fetch = .ok i → i.operation = .ret → m.step = (m', none) →
      m'.pc.toNat % 2 = 0 ∧ 0x202 ≤ m'.pc.toNat ∧ m'.pc.toNat ≤ 0x1000) ∧
    (∀ i, m.fetch = .ok i → m.ComputesExactly i) ∧
    ∃ last i, Leads countingFrom last ∧ last.fetch = .ok i ∧ i.operation = .addIndex ∧
      65536 ≤ i.pointer last.toCore := by
  rcases load_eq_ok_iff.1 hLoad with ⟨hFits, hReset⟩
  have hFirst : first.WellFormed := hReset ▸ lasting_wellFormed.reset _
  have hWell := lasting_wellFormed.of_leads hLeads hFirst
  refine ⟨hWell, fun i m' hFetch hRet hStep => ?_, fun i => computesExactly,
    exists_wrapping_addIndex⟩
  rcases exists_frame_of_ret_step hFetch hRet hStep with ⟨frame, hTop, hBack⟩
  have hFrames := hWell.frames
  rw [hTop, List.forall_mem_cons] at hFrames
  rw [hBack]
  exact hFrames.1.returnAddress

/-- A machine with a program that calls a subroutine, which returns at once. -/
def callingOnce : Machine :=
  { Machine.start none 0 with
    memory := memoryOf [0x22, 0x04, 0x00, 0xE0, 0x00, 0xEE]
    program := [0x22, 0x04, 0x00, 0xE0, 0x00, 0xEE]
    program_fits := by decide }

theorem wellFormed_of_leads_calling_once :
    (Machine.start none 0).load [0x22, 0x04, 0x00, 0xE0, 0x00, 0xEE] = .ok callingOnce ∧
      ∃ m, Leads callingOnce m ∧ m.WellFormed ∧ ∃ i m', m.fetch = .ok i ∧
        i.operation = .ret ∧ m.step = (m', none) ∧ m'.pc.toNat % 2 = 0 ∧
        0x202 ≤ m'.pc.toNat ∧ m'.pc.toNat ≤ 0x1000 := by
  have hLoad : (Machine.start none 0).load [0x22, 0x04, 0x00, 0xE0, 0x00, 0xEE] =
      .ok callingOnce := by
    refine load_eq_ok_iff.2 ⟨by decide, ?_⟩
    simp only [reset, Memory.clear_eq_zero, Timers.restart_eq_start]
    rfl
  have hLeads : Leads callingOnce callingOnce.stepIn.1 := (Leads.refl callingOnce).beginStep.step
  have hReached := wellFormed_of_leads hLoad hLeads
  have hFetch : callingOnce.stepIn.1.fetch =
      .ok ⟨⟨.ret, .ret, .plain, none, 0x00EE⟩, 0x00EE⟩ :=
    Core.fetch_of_word (by decide +kernel) (by decide +kernel) (by decide +kernel)
  have hNoFault : callingOnce.stepIn.1.step.2 = none := by decide +kernel
  have hStep : callingOnce.stepIn.1.step = (callingOnce.stepIn.1.step.1, none) := by
    rw [← hNoFault]
  exact ⟨hLoad, _, hLeads, hReached.1, _, _, hFetch, rfl, hStep,
    hReached.2.1 _ _ hFetch rfl hStep⟩

end Machine

end Chip8

import Chip8.Proofs.Machine.Atomic

/-!
# What an instruction leaves alone

A change keeps a part of the core if it leaves this part as it was, also where it fails.
A part is any view of the core, a component as well as something that is computed from
several of them. The changes that an instruction consists of keep whatever they do not
name, and changes one after the other keep what each of them keeps.

Which components an instruction may change at all is a matter of its operation, and a
table of the operations says it. A view of the core that none of these components can be
seen in is kept by the instruction.

## Main definitions

* `Change.Keeps` — a change keeps a part of the core.
* `Component`, `Operation.touched` — what the instructions of an operation may change.
* `Unseen` — a part of the core in which a component cannot be seen.

## Main results

* `Keeps.bind` — changes one after the other.
* `Instruction.keeps_execute` — an instruction keeps what it does not touch.
* `Instruction.leaves` — the same for each component.
* `Instruction.keeps_stack_execute` — calls and returns alone touch the call stack.
-/

namespace Chip8

namespace Change

variable {α β γ : Type} {part : Core → γ}

/-- The part of the core is left as it was, whether the change fails or not. -/
def Keeps (part : Core → γ) (a : Change α) : Prop := ∀ c, part (a.on c).2 = part c

/-- What leaves the whole core alone keeps every part of it. -/
theorem Checks.keeps {a : Change α} (hChecks : Checks a) : Keeps part a := by
  intro c
  rw [hChecks c]

private theorem keeps_pure (x : α) : Keeps part (pure x) := by
  intro c
  rfl

private theorem keeps_modify {f : Core → Core} (hSame : ∀ c, part (f c) = part c) :
    Keeps part (modify f) := by
  intro c
  exact hSame c

/-- Changes one after the other keep what each of them keeps. -/
theorem Keeps.bind {a : Change α} {f : α → Change β} (hFirst : Keeps part a)
    (hNext : ∀ x, Keeps part (f x)) : Keeps part (a >>= f) := by
  intro c
  have hBetween := hFirst c
  rcases hRun : a.on c with ⟨r, between⟩
  rw [hRun] at hBetween
  cases r with
  | ok x =>
      rw [on_bind_of_ok hRun, hNext x between]
      exact hBetween
  | error met =>
      rw [on_bind_of_error hRun]
      exact hBetween

private theorem keeps_modify_modify {f g : Core → Core} (hFirst : ∀ c, part (f c) = part c)
    (hNext : ∀ c, part (g c) = part c) : Keeps part (do modify f; modify g : Change Unit) :=
  (keeps_modify hFirst).bind fun _ => keeps_modify hNext

end Change

/-! ## Components -/

/-- The components of the core. Of the log, an instruction writes the accesses to memory
and whether there was a drawing. -/
inductive Component where
  | memory
  | registers
  | index
  | pc
  | stack
  | keypad
  | screen
  | timers
  | random
  | accesses
  | drawn
  deriving DecidableEq

/-- The components that the instructions of an operation may change. -/
def Operation.touched : Operation → List Component
  | .sys | .waitKey => []
  | .jump | .jumpOffset | .skipEqValue | .skipNeValue | .skipEqRegister | .skipNeRegister => [.pc]
  | .call | .ret => [.stack, .pc]
  | .skipKey | .skipNotKey => [.keypad, .pc]
  | .loadValue | .addValue | .copy | .or | .and | .xor | .add | .subtract | .subtractFrom
  | .shiftRight | .shiftLeft | .readDelay => [.registers]
  | .random => [.random, .registers]
  | .loadIndex | .fontIndex => [.index]
  | .addIndex => [.registers, .index]
  | .setDelay | .setSound => [.timers]
  | .clearScreen => [.screen, .drawn]
  | .draw => [.accesses, .screen, .drawn, .registers]
  | .decimalDigits => [.memory, .accesses]
  | .storeRegisters => [.memory, .accesses, .index]
  | .loadRegisters => [.accesses, .registers]

/-- The part of the core is the same whatever the component is. -/
def Unseen {γ : Type} (part : Core → γ) : Component → Prop
  | .memory => ∀ (c : Core) (memory : Memory), part { c with memory } = part c
  | .registers => ∀ (c : Core) (registers : Registers), part { c with registers } = part c
  | .index => ∀ (c : Core) (index : UInt16), part { c with index } = part c
  | .pc => ∀ (c : Core) (pc : UInt16), part { c with pc } = part c
  | .stack => ∀ (c : Core) (stack : List Frame), part { c with stack } = part c
  | .keypad => ∀ (c : Core) (keypad : Keypad), part { c with keypad } = part c
  | .screen => ∀ (c : Core) (screen : Screen), part { c with screen } = part c
  | .timers => ∀ (c : Core) (timers : Timers), part { c with timers } = part c
  | .random => ∀ (c : Core) (random : Generator), part { c with random } = part c
  | .accesses => ∀ (c : Core) (accesses : Std.ExtTreeMap UInt16 Access),
      part { c with log := { c.log with accesses } } = part c
  | .drawn => ∀ (c : Core) (drawn : Bool), part { c with log := { c.log with drawn } } = part c

/-- Accesses to memory are all that is noted of an access to a block. -/
theorem AccessLog.exists_addAll_eq (l : AccessLog) (address : UInt16) (as : List Access) :
    ∃ accesses, l.addAll address as = { l with accesses } := by
  induction as generalizing l address with
  | nil => exact ⟨l.accesses, rfl⟩
  | cons a as ih =>
      rcases ih (l.add address a) (address + 1) with ⟨accesses, hRest⟩
      exact ⟨accesses, hRest⟩

section Unseen

variable {γ : Type} {part : Core → γ}

theorem Unseen.skipIf (hPc : Unseen part .pc) (c : Core) (condition : Bool) :
    part (c.skipIf condition) = part c := by
  cases condition with
  | false => rfl
  | true => exact hPc c _

theorem Unseen.addAll (hAccesses : Unseen part .accesses) (c : Core) (address : UInt16)
    (as : List Access) : part { c with log := c.log.addAll address as } = part c := by
  rcases c.log.exists_addAll_eq address as with ⟨accesses, hLog⟩
  rw [hLog]
  exact hAccesses c accesses

open Change

private theorem Unseen.keeps_readBlock (hAccesses : Unseen part .accesses) (address : UInt16)
    (length : Nat) : Keeps part (readBlock address length) := by
  intro c
  rw [on_readBlock]
  cases c.memory.block address.toNat length with
  | ok bytes => exact hAccesses.addAll c address _
  | error met => rfl

private theorem Unseen.keeps_writeBlock (hMemory : Unseen part .memory)
    (hAccesses : Unseen part .accesses) (address : UInt16) (bytes : List UInt8) :
    Keeps part (writeBlock address bytes) := by
  intro c
  rw [on_writeBlock]
  cases c.memory.block address.toNat bytes.length with
  | ok old => exact (hAccesses.addAll { c with memory := _ } address _).trans (hMemory c _)
  | error met => rfl

/-- An instruction keeps every part of the core in which nothing that it touches is
seen. -/
theorem Instruction.keeps_execute {i : Instruction}
    (hUnseen : ∀ component ∈ i.operation.touched, Unseen part component) :
    Keeps part i.execute := by
  refine checks_get.keeps.bind fun c => ?_
  revert hUnseen
  cases i.operation with
  | sys | waitKey => exact fun _ => keeps_pure ()
  | jump | jumpOffset => exact fun hUnseen => keeps_modify fun c => hUnseen .pc (by decide) c _
  | skipEqValue | skipNeValue | skipEqRegister | skipNeRegister =>
      exact fun hUnseen => keeps_modify fun c => (hUnseen .pc (by decide)).skipIf c _
  | call =>
      intro hUnseen
      exact keeps_modify_modify (fun c => hUnseen .stack (by decide) c _)
        fun c => hUnseen .pc (by decide) c _
  | ret =>
      intro hUnseen
      cases c.stack with
      | nil => exact (checks_throw _).keeps
      | cons frame stack =>
          exact keeps_modify_modify (fun c => hUnseen .stack (by decide) c _)
            fun c => hUnseen .pc (by decide) c _
  | skipKey =>
      intro hUnseen
      refine (checks_keyIn _).keeps.bind fun key => ?_
      by_cases hPressed : c.keypad.isPressed key
      · simp only [hPressed, ↓reduceIte]
        exact keeps_modify_modify (fun c => hUnseen .keypad (by decide) c _)
          fun c => (hUnseen .pc (by decide)).skipIf c true
      · simp only [hPressed, Bool.false_eq_true, ↓reduceIte]
        exact keeps_pure ()
  | skipNotKey =>
      intro hUnseen
      refine (checks_keyIn _).keeps.bind fun key => ?_
      by_cases hPressed : c.keypad.isPressed key
      · simp only [hPressed, ↓reduceIte]
        exact keeps_modify fun c => hUnseen .keypad (by decide) c _
      · simp only [hPressed, Bool.false_eq_true, ↓reduceIte]
        exact keeps_modify fun c => (hUnseen .pc (by decide)).skipIf c true
  | loadValue | addValue | copy | or | and | xor | readDelay =>
      exact fun hUnseen => keeps_modify fun c => hUnseen .registers (by decide) c _
  | add | subtract | subtractFrom | shiftRight | shiftLeft =>
      intro hUnseen
      exact keeps_modify_modify (fun c => hUnseen .registers (by decide) c _)
        fun c => hUnseen .registers (by decide) c _
  | random =>
      intro hUnseen
      exact keeps_modify_modify (fun c => hUnseen .random (by decide) c _)
        fun c => hUnseen .registers (by decide) c _
  | loadIndex | fontIndex =>
      exact fun hUnseen => keeps_modify fun c => hUnseen .index (by decide) c _
  | addIndex =>
      intro hUnseen
      exact keeps_modify_modify (fun c => hUnseen .registers (by decide) c _)
        fun c => hUnseen .index (by decide) c _
  | setDelay | setSound =>
      exact fun hUnseen => keeps_modify fun c => hUnseen .timers (by decide) c _
  | clearScreen =>
      intro hUnseen
      exact keeps_modify_modify (fun c => hUnseen .screen (by decide) c _)
        fun c => hUnseen .drawn (by decide) c _
  | draw =>
      intro hUnseen
      refine ((hUnseen .accesses (by decide)).keeps_readBlock _ _).bind fun rows => ?_
      refine Keeps.bind (keeps_modify fun c => hUnseen .screen (by decide) c _) fun _ => ?_
      exact keeps_modify_modify (fun c => hUnseen .drawn (by decide) c _)
        fun c => hUnseen .registers (by decide) c _
  | decimalDigits =>
      intro hUnseen
      exact (hUnseen .memory (by decide)).keeps_writeBlock (hUnseen .accesses (by decide)) _ _
  | storeRegisters =>
      intro hUnseen
      have hStored := (hUnseen .memory (by decide)).keeps_writeBlock
        (hUnseen .accesses (by decide))
      exact (hStored _ _).bind fun _ => keeps_modify fun c => hUnseen .index (by decide) c _
  | loadRegisters =>
      intro hUnseen
      refine ((hUnseen .accesses (by decide)).keeps_readBlock _ _).bind fun values => ?_
      exact keeps_modify fun c => hUnseen .registers (by decide) c _

end Unseen

/-! ## Single components -/

/-- An instruction leaves alone every component that it does not touch. -/
structure Instruction.Leaves (i : Instruction) : Prop where
  memory (hUntouched : .memory ∉ i.operation.touched) : Change.Keeps (·.memory) i.execute
  registers (hUntouched : .registers ∉ i.operation.touched) :
    Change.Keeps (·.registers) i.execute
  index (hUntouched : .index ∉ i.operation.touched) : Change.Keeps (·.index) i.execute
  pc (hUntouched : .pc ∉ i.operation.touched) : Change.Keeps (·.pc) i.execute
  stack (hUntouched : .stack ∉ i.operation.touched) : Change.Keeps (·.stack) i.execute
  keypad (hUntouched : .keypad ∉ i.operation.touched) : Change.Keeps (·.keypad) i.execute
  screen (hUntouched : .screen ∉ i.operation.touched) : Change.Keeps (·.screen) i.execute
  timers (hUntouched : .timers ∉ i.operation.touched) : Change.Keeps (·.timers) i.execute
  random (hUntouched : .random ∉ i.operation.touched) : Change.Keeps (·.random) i.execute
  accesses (hUntouched : .accesses ∉ i.operation.touched) :
    Change.Keeps (·.log.accesses) i.execute
  drawn (hUntouched : .drawn ∉ i.operation.touched) : Change.Keeps (·.log.drawn) i.execute

/-- Where a part of the core is a single component, an instruction that does not touch
this component keeps it. -/
theorem Instruction.keeps_execute_of_notMem {γ : Type} {part : Core → γ} {i : Instruction}
    {component : Component} (hOnly : ∀ other, other ≠ component → Unseen part other)
    (hUntouched : component ∉ i.operation.touched) : Change.Keeps part i.execute :=
  keeps_execute fun other hOther => hOnly other (ne_of_mem_of_not_mem hOther hUntouched)

theorem Instruction.leaves (i : Instruction) : i.Leaves := by
  constructor
  all_goals
    refine keeps_execute_of_notMem fun other hOther => ?_
    cases other <;> first | exact absurd rfl hOther | exact fun _ _ => rfl

/-! ## The call stack -/

theorem Component.stack_mem_touched {o : Operation} :
    .stack ∈ o.touched ↔ o = .call ∨ o = .ret := by
  cases o <;> decide

/-- An instruction that is neither a call nor a return keeps the call stack. -/
theorem Instruction.keeps_stack_execute {i : Instruction} (hCall : i.operation ≠ .call)
    (hRet : i.operation ≠ .ret) : Change.Keeps (·.stack) i.execute := by
  refine i.leaves.stack ?_
  rw [Component.stack_mem_touched]
  exact fun hTouched => hTouched.elim hCall hRet

end Chip8

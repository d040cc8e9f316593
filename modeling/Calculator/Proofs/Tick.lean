/-
# Inside a tick

A tick latches the inputs, fetches a word, moves on and executes what the word means.  This module
says so once: `tick_cases` tells the four ways in which a tick can go, and `tick_preserves` is the
induction step of every invariant of the processor, one premise for each stage of the tick.
-/
import Calculator.Proofs.Footprint
import Calculator.Proofs.Image
import Calculator.Proofs.Operands

namespace Calculator

/-- The warning that an event is, if it is one. -/
def Event.warning? : Event → Option Warning
  | .warned w => some w
  | _ => none

/-- The warnings among the events of an outcome. -/
def Outcome.warnings (o : Outcome) : List Warning := o.events.filterMap Event.warning?

@[simp] theorem Outcome.warnings_done (cpu : Processor) : (done cpu).warnings = [] := rfl

@[simp] theorem Outcome.warnings_warn (cpu : Processor) (w : Warning) :
    (warn cpu w).warnings = [w] := rfl

namespace Processor

variable (cpu : Processor)

/-! ## 1. What comes before the instruction -/

theorem changesOnly_setBit (i : Nat) (v : Bool) : ChangesOnly [.status] cpu (cpu.setBit i v) :=
  cpu.changesOnly_status _

theorem changesOnly_raise (i : Nat) (v : Bool) : ChangesOnly [.status] cpu (cpu.raise i v) := by
  unfold raise
  split
  · exact cpu.changesOnly_setBit i true
  · exact .refl _ cpu

/-- The inputs go to the status bits, to the mode flag or, on a Nut, to the keyboard flag. -/
theorem changesOnly_latchInputs :
    ChangesOnly [.status, .modeFlag, .keyFlag] cpu cpu.latchInputs := by
  have hraised : ∀ i, ChangesOnly [.status] cpu
      ((cpu.raise i cpu.keyboard.pressed).raise 3 cpu.switches.program) :=
    fun i => (cpu.changesOnly_raise i _).trans (changesOnly_raise _ 3 _)
  unfold latchInputs
  dsimp only
  split
  · exact ((hraised 0).trans (changesOnly_raise _ 11 _)).mono (by simp)
  · exact ((hraised 15).trans (changesOnly_setBit _ 5 true)).mono (by simp)
  · exact ((hraised 15).trans (changesOnly_setBit _ 5 false)).mono (by simp)
  · intro c hc
    unfold raise
    cases c with
    | status | modeFlag => exact absurd (by simp) hc
    | _ => split <;> rfl
  · exact (cpu.changesOnly_keyFlag _).mono (by simp)
  · exact .refl _ cpu

/-- A fetch remembers the address and moves on. -/
theorem changesOnly_fetched :
    ChangesOnly [.pc, .last, .carry, .prevCarry] cpu cpu.fetched := by
  intro c hc
  cases c with
  | pc | last | carry | prevCarry => exact absurd (by simp) hc
  | _ => rfl

/-- The processor as the instruction of a tick finds it. -/
def ready : Processor := cpu.latchInputs.fetched

theorem changesOnly_ready :
    ChangesOnly [.status, .modeFlag, .keyFlag, .pc, .last, .carry, .prevCarry] cpu cpu.ready :=
  cpu.changesOnly_latchInputs.append (changesOnly_fetched _)

@[simp] theorem latchInputs_model : cpu.latchInputs.model = cpu.model :=
  cpu.changesOnly_latchInputs .model (by simp)

@[simp] theorem latchInputs_rom : cpu.latchInputs.rom = cpu.rom :=
  cpu.changesOnly_latchInputs .rom (by simp)

@[simp] theorem latchInputs_pc : cpu.latchInputs.pc = cpu.pc :=
  cpu.changesOnly_latchInputs .pc (by simp)

@[simp] theorem ready_model : cpu.ready.model = cpu.model :=
  cpu.changesOnly_ready .model (by simp)

@[simp] theorem ready_rom : cpu.ready.rom = cpu.rom :=
  cpu.changesOnly_ready .rom (by simp)

@[simp] theorem ready_hardware : cpu.ready.hardware = cpu.hardware :=
  congrArg Model.hardware cpu.ready_model

/-- An instruction finds the program counter behind its own word. -/
@[simp] theorem ready_pc : cpu.ready.pc = cpu.hardware.next cpu.pc := by
  show cpu.latchInputs.hardware.next cpu.latchInputs.pc = _
  rw [hardware, latchInputs_model, latchInputs_pc]
  rfl

@[simp] theorem ready_isRunning : cpu.ready.isRunning = cpu.isRunning := by
  have henabled : cpu.ready.enabled = cpu.enabled := cpu.changesOnly_ready .enabled (by simp)
  have hsleeping : cpu.ready.sleeping = cpu.sleeping := cpu.changesOnly_ready .sleeping (by simp)
  rw [isRunning, henabled, hsleeping]
  rfl

@[simp] theorem ready_last : cpu.ready.last = cpu.pc :=
  cpu.latchInputs_pc

/-- The carry is clear when an instruction starts. -/
theorem ready_carry : cpu.ready.flags.carry = false := rfl

/-- The carry before is the carry that the tick has found. -/
theorem ready_prevCarry : cpu.ready.flags.prevCarry = cpu.flags.carry :=
  cpu.changesOnly_latchInputs .carry (by simp)

/-! ## 2. The ways of a tick -/

/-- A tick of the processor executes the instruction. -/
structure Executes (word : Nat) (i : Instruction) : Prop where
  isRunning : cpu.isRunning = true
  word_eq : cpu.rom.word? cpu.pc = some word
  decode_eq : Instruction.decode cpu.hardware word = .ok i

variable {cpu}

/-- The operands of an instruction have the width that ten bits leave them. -/
theorem Executes.fits {word : Nat} {i : Instruction} (h : cpu.Executes word i)
    (hrom : cpu.rom.TenBit) : i.Fits cpu.hardware :=
  Instruction.fits_of_decode (hrom.lt h.word_eq) h.decode_eq

/-- A halted processor stays as it is. -/
theorem tick_of_not_isRunning (h : cpu.isRunning = false) : cpu.tick = .done cpu := by
  unfold tick
  rw [h]
  rfl

/-- Where there is no word, the inputs have been latched and nothing else was done. -/
theorem tick_of_word?_eq_none (h : cpu.isRunning = true) (hword : cpu.rom.word? cpu.pc = none) :
    cpu.tick = .fail cpu.latchInputs (.outsideRom cpu.pc) := by
  unfold tick fetch
  simp only [h, latchInputs_rom, latchInputs_pc, hword]
  rfl

/-- A word is remembered whether it can be executed or not. -/
theorem tick_of_word? {word : Nat} (h : cpu.isRunning = true)
    (hword : cpu.rom.word? cpu.pc = some word) :
    cpu.tick.cpu = { (cpu.ready.execute word).cpu with opcode := word } ∧
      cpu.tick.fault = (cpu.ready.execute word).fault := by
  unfold tick fetch
  simp only [h, latchInputs_rom, latchInputs_pc, hword]
  exact ⟨rfl, rfl⟩

/-- What a fetch delivers stands in the image. -/
theorem word?_of_fetch {a : Address} {word : Nat} (h : cpu.fetch a = .ok word) :
    cpu.rom.word? a = some word := by
  unfold fetch at h
  split at h
  · cases h
    assumption
  · cases h

theorem execute_of_decode {word : Nat} {i : Instruction}
    (h : Instruction.decode cpu.hardware word = .ok i) : cpu.execute word = cpu.run i := by
  unfold execute
  rw [h]

/-- A tick that executes an instruction does what the instruction does. -/
theorem Executes.tick_eq {word : Nat} {i : Instruction} (h : cpu.Executes word i) :
    cpu.tick.cpu = { (cpu.ready.run i).cpu with opcode := word } ∧
      cpu.tick.fault = (cpu.ready.run i).fault := by
  obtain ⟨hcpu, hfault⟩ := tick_of_word? h.isRunning h.word_eq
  rw [execute_of_decode (cpu.ready_hardware ▸ h.decode_eq)] at hcpu hfault
  exact ⟨hcpu, hfault⟩

/-- What a tick warns of, its instruction warns of. -/
theorem Executes.warnings_eq {word : Nat} {i : Instruction} (h : cpu.Executes word i) :
    cpu.tick.warnings = (cpu.ready.run i).warnings := by
  have hexecute : cpu.ready.execute word = cpu.ready.run i :=
    execute_of_decode (cpu.ready_hardware ▸ h.decode_eq)
  unfold ready at hexecute ⊢
  unfold tick fetch
  simp only [h.isRunning, latchInputs_rom, latchInputs_pc, h.word_eq, if_true, hexecute,
    Outcome.warnings, Outcome.after, List.filterMap_append]
  split <;> rfl

/-- What a tick may change before its instruction runs and after it. -/
def tickFootprint : List Component :=
  [.status, .modeFlag, .keyFlag, .pc, .last, .carry, .prevCarry, .opcode]

/-- A tick touches what its instruction touches, and what every tick does. -/
theorem Executes.tick_changesOnly {word : Nat} {i : Instruction} {cs : List Component}
    (h : cpu.Executes word i) (hrun : ChangesOnly cs cpu.ready (cpu.ready.run i).cpu) :
    ChangesOnly (tickFootprint ++ cs) cpu cpu.tick.cpu := by
  rw [h.tick_eq.1]
  refine ((cpu.changesOnly_ready.mono ?_).trans (hrun.mono ?_)).trans
    ((changesOnly_opcode _ word).mono ?_)
  · simp [tickFootprint]
  · exact fun c => List.mem_append_right _
  · simp [tickFootprint]

/-- **A tick goes one of four ways**: the processor is halted, there is no word at the program
counter, the word is no instruction, or its instruction is executed. -/
theorem tick_cases (cpu : Processor) :
    (cpu.isRunning = false ∧ cpu.tick = .done cpu) ∨
    (cpu.isRunning = true ∧ cpu.rom.word? cpu.pc = none ∧
      cpu.tick = .fail cpu.latchInputs (.outsideRom cpu.pc)) ∨
    (∃ word e, cpu.isRunning = true ∧ cpu.rom.word? cpu.pc = some word ∧
      Instruction.decode cpu.hardware word = .error e ∧
      cpu.tick.cpu = { cpu.ready with opcode := word } ∧
      cpu.tick.fault =
        some (match e with
          | .undefined => .unexpectedOpcode cpu.pc word
          | .operandTooWide => .outOfBounds cpu.pc)) ∨
    (∃ word i, cpu.Executes word i ∧
      cpu.tick.cpu = { (cpu.ready.run i).cpu with opcode := word } ∧
      cpu.tick.fault = (cpu.ready.run i).fault) := by
  cases hrunning : cpu.isRunning with
  | false => exact .inl ⟨rfl, tick_of_not_isRunning hrunning⟩
  | true =>
    refine .inr ?_
    cases hword : cpu.rom.word? cpu.pc with
    | none => exact .inl ⟨rfl, rfl, tick_of_word?_eq_none hrunning hword⟩
    | some word =>
      refine .inr ?_
      obtain ⟨hcpu, hfault⟩ := tick_of_word? hrunning hword
      cases hdecode : Instruction.decode cpu.hardware word with
      | error e =>
        refine .inl ⟨word, e, rfl, rfl, hdecode, ?_, ?_⟩
        · rw [hcpu]
          unfold execute
          rw [ready_hardware, hdecode]
          cases e <;> rfl
        · rw [hfault]
          unfold execute
          rw [ready_hardware, hdecode, ready_last]
          cases e <;> rfl
      | ok i =>
        have hi : cpu.Executes word i := ⟨hrunning, hword, hdecode⟩
        exact .inr ⟨word, i, hi, hi.tick_eq⟩

/-! ## 3. Invariants of a tick -/

/-- **What every stage of a tick preserves, the tick preserves**, also a tick that fails. -/
theorem tick_preserves {motive : Processor → Prop} (h : motive cpu)
    (hlatch : motive cpu → motive cpu.latchInputs)
    (hready : motive cpu.latchInputs → motive cpu.ready)
    (hrun : ∀ word i, cpu.Executes word i → motive cpu.ready → motive (cpu.ready.run i).cpu)
    (hopcode : ∀ (cpu' : Processor) word, motive cpu' → motive { cpu' with opcode := word }) :
    motive cpu.tick.cpu := by
  have hlatched := hlatch h
  rcases tick_cases cpu with ⟨-, heq⟩ | ⟨-, -, heq⟩ | ⟨word, e, -, -, -, heq, -⟩ |
    ⟨word, i, hi, heq, -⟩
  · rw [heq]
    exact h
  · rw [heq]
    exact hlatched
  · rw [heq]
    exact hopcode _ word (hready hlatched)
  · rw [heq]
    exact hopcode _ word (hrun word i hi (hready hlatched))

end Processor

end Calculator

/-
# Faults

An instruction that fails has not begun to do its work: it finds a pointer out of range or a word
missing before it changes anything (`failsEarly_run`), save for a test that holds and then finds no
target (`fault_of_isTestAndGo`).  The main statement, `failed_tick_leaves_nop`, says what a host
sees of a failed tick: the state that a nop would have left.
-/
import Calculator.Proofs.Tick

namespace Calculator

/-- Whether an instruction is a test that takes its target from the next word. -/
def Instruction.isTestAndGo (hw : Hardware) : Instruction → Bool
  | .arithmetic op _ => op.isTest && hw.family != .nut
  | .status (.branchIf _ _) | .pointer (.branchIf _ _) => true
  | _ => false

namespace Processor

variable {cpu : Processor}

/-! ## 1. Failing early

Most instructions that fail do so before they have changed anything. -/

/-- The instruction could not fetch the word at the program counter. -/
def MissesWord (cpu : Processor) (f : Fault) : Prop :=
  cpu.rom.word? cpu.pc = none ∧ f = .outsideRom cpu.pc

/-- If the outcome is a fault, then nothing was changed, and it was a pointer that was out of range
or a second word that was missing. -/
def FailsEarly (cpu : Processor) (o : Outcome) : Prop :=
  ∀ f, o.fault = some f → o.cpu = cpu ∧
    ((∃ n, f = .pointerOutOfRange cpu.last n) ∨ f = .outOfBounds cpu.last ∨ cpu.MissesWord f)

/-- What ends without a fault does not fail at all. -/
theorem FailsEarly.of_fault_eq_none {o : Outcome} (h : o.fault = none) : cpu.FailsEarly o := by
  intro f hf
  rw [h] at hf
  cases hf

theorem failsEarly_pointer (n : Nat) :
    cpu.FailsEarly (.fail cpu (.pointerOutOfRange cpu.last n)) := by
  intro f hf
  cases hf
  exact ⟨rfl, .inl ⟨n, rfl⟩⟩

theorem failsEarly_outOfBounds : cpu.FailsEarly (.fail cpu (.outOfBounds cpu.last)) := by
  intro f hf
  cases hf
  exact ⟨rfl, .inr (.inl rfl)⟩

theorem missesWord_of_fetch {f : Fault} (h : cpu.fetch cpu.pc = .error f) : cpu.MissesWord f := by
  unfold fetch at h
  split at h
  · cases h
  · cases h
    exact ⟨‹_›, rfl⟩

theorem failsEarly_fetch {f : Fault} (h : cpu.fetch cpu.pc = .error f) :
    cpu.FailsEarly (.fail cpu f) := by
  intro f' hf'
  cases hf'
  exact ⟨rfl, .inr (.inr (missesWord_of_fetch h))⟩

theorem failsEarly_atPointer (act : Nat → Processor) : cpu.FailsEarly (cpu.atPointer act) := by
  unfold atPointer
  split
  · exact .of_fault_eq_none rfl
  · exact failsEarly_pointer _

theorem failsEarly_runDigit (d : DigitOp) : cpu.FailsEarly (cpu.runDigit d) := by
  cases d with
  | gFromC | cFromG | exchangeCG => exact failsEarly_atPointer _
  | loadImmediate =>
    simp only [runDigit]
    split
    · exact failsEarly_fetch ‹_›
    · exact .of_fault_eq_none rfl
  | loadConstant digit =>
    simp only [runDigit, loadConstant]
    split
    · exact .of_fault_eq_none rfl
    · exact .of_fault_eq_none rfl
  | readRom =>
    simp only [runDigit]
    split
    · exact .of_fault_eq_none rfl
    · exact .of_fault_eq_none rfl
  | _ => exact .of_fault_eq_none rfl

/-- A pointer that cannot count has run out of its bits. -/
theorem nextPointer_eq_error {f : Fault} (h : cpu.nextPointer = .error f) :
    f = .outOfBounds cpu.last := by
  have hcount : ∀ n, cpu.countUp n = .error f → f = .outOfBounds cpu.last := by
    intro n hn
    unfold countUp at hn
    split at hn <;> cases hn
    rfl
  unfold nextPointer at h
  dsimp only at h
  repeat' split at h
  all_goals first | exact hcount _ h | cases h

theorem failsEarly_incrementPointer : cpu.FailsEarly cpu.incrementPointer := by
  unfold incrementPointer
  split
  · exact .of_fault_eq_none rfl
  · rename_i hnext
    rw [nextPointer_eq_error hnext]
    exact failsEarly_outOfBounds

theorem failsEarly_longBranch (low : Address) : cpu.FailsEarly (cpu.longBranch low) := by
  unfold longBranch
  split
  · exact failsEarly_fetch ‹_›
  · dsimp only
    repeat' split
    all_goals exact .of_fault_eq_none rfl

theorem failsEarly_runFlow (x : FlowOp) : cpu.FailsEarly (cpu.runFlow x) := by
  cases x with
  | longBranch low => exact failsEarly_longBranch low
  | aToRomAddress =>
    simp only [runFlow, aToRomAddress]
    split
    · exact .of_fault_eq_none rfl
    · exact .of_fault_eq_none rfl
  | _ => exact .of_fault_eq_none rfl

theorem fault_runData (x : DataOp) : (cpu.runData x).fault = none := by
  have hclamp : ∀ n, (cpu.selectClamped n).fault = none := by
    intro n
    simp only [selectClamped]
    split <;> rfl
  have hstore : ∀ cpu : Processor, cpu.store.fault = none := by
    intro cpu
    unfold store
    split <;> rfl
  cases x with
  | selectFromC =>
    simp only [runData, selectFromC]
    split
    · exact hclamp _
    · split
      · rfl
      · exact hclamp _
    · rfl
  | store => exact hstore cpu
  | storeAt n => exact hstore _
  | loadAt n =>
    simp only [runData, loadAt]
    split <;> rfl
  | load | clear => rfl

theorem fault_runPrinter (x : PrinterOp) : (cpu.runPrinter x).fault = none := by
  have htake : ∀ result, (cpu.takePrinter result).fault = none := by
    intro result
    simp only [takePrinter]
    split <;> rfl
  unfold runPrinter
  split
  · cases x with
    | printLine | printLineAndPoll => rfl
    | numeric | alpha => exact htake _
  · rfl

/-! ## 2. Tests that hold -/

/-- The processor with the carry cleared and a test that holds kept as the carry before. -/
def tested (cpu : Processor) : Processor :=
  { cpu with flags := { cpu.flags with carry := false, prevCarry := true } }

/-- If the outcome is a fault, then the test held, and its target was missing. -/
def LacksTarget (cpu : Processor) (o : Outcome) : Prop :=
  ∀ f, o.fault = some f → o.cpu = cpu.tested ∧ cpu.MissesWord f

theorem lacksTarget_testAndGo (t : Bool) : cpu.LacksTarget (cpu.testAndGo t) := by
  cases t with
  | false =>
    intro f hf
    cases hf
  | true =>
    unfold testAndGo
    simp only [if_true]
    intro f hf
    split at hf
    · cases hf
      have hmiss : cpu.tested.MissesWord f := missesWord_of_fetch ‹_›
      exact ⟨rfl, hmiss⟩
    · split at hf <;> cases hf

/-- A test leaves no more than a carry. -/
theorem applyArithmetic_of_isTest {op : ArithmeticOp} (h : op.isTest = true) (s : Span) :
    ∃ v, cpu.applyArithmetic op s = cpu.setCarry v := by
  cases op with
  | ifZero | ifNotZero | ifLess | ifNotEqual | ifGreaterOrEqual => exact ⟨_, rfl⟩
  | _ => cases h

/-! ## 3. Every instruction -/

theorem failsEarly_run {i : Instruction} (h : i.isTestAndGo cpu.hardware = false) :
    cpu.FailsEarly (cpu.run i) := by
  cases i with
  | nop | move _ | control _ | card _ => exact .of_fault_eq_none rfl
  | arithmetic op field =>
    have hno : ¬(op.isTest = true ∧ cpu.hardware.family ≠ .nut) := by
      simpa [Instruction.isTestAndGo] using h
    simp only [run, runArithmetic, spanOf?]
    split
    · rename_i hspan
      split at hspan
      · cases hspan
        exact failsEarly_pointer _
      · cases hspan
    · rw [if_neg hno]
      exact .of_fault_eq_none rfl
  | digit d => exact failsEarly_runDigit d
  | status x =>
    cases x with
    | branchIf => cases h
    | set bit value =>
      simp only [run, runStatus, putStatus]
      split
      · exact .of_fault_eq_none rfl
      · exact .of_fault_eq_none rfl
    | _ => exact .of_fault_eq_none rfl
  | pointer x =>
    cases x with
    | branchIf => cases h
    | increment => exact failsEarly_incrementPointer
    | _ => exact .of_fault_eq_none rfl
  | flow x => exact failsEarly_runFlow x
  | data x => exact .of_fault_eq_none (fault_runData x)
  | printer x => exact .of_fault_eq_none (fault_runPrinter x)

/-- A test-and-goto fails before the test, for want of a span, or after it, for want of a target. -/
theorem fault_of_isTestAndGo {i : Instruction} {f : Fault}
    (h : i.isTestAndGo cpu.hardware = true) (hf : (cpu.run i).fault = some f) :
    ((cpu.run i).cpu = cpu ∧ ∃ n, f = .pointerOutOfRange cpu.last n) ∨
    ((cpu.run i).cpu = cpu.tested ∧ cpu.MissesWord f) := by
  cases i with
  | arithmetic op field =>
    have htest : op.isTest = true ∧ cpu.hardware.family ≠ .nut := by
      simpa [Instruction.isTestAndGo] using h
    simp only [run, runArithmetic, spanOf?] at hf ⊢
    split at hf
    · rename_i hspan
      split at hspan
      · cases hspan
        cases hf
        exact .inl ⟨rfl, _, rfl⟩
      · cases hspan
    · rename_i s _
      rw [if_pos htest] at hf ⊢
      obtain ⟨v, hv⟩ := cpu.applyArithmetic_of_isTest htest.1 s
      rw [hv] at hf ⊢
      exact .inr (lacksTarget_testAndGo _ f hf)
  | status x =>
    cases x with
    | branchIf bit value => exact .inr (lacksTarget_testAndGo _ f hf)
    | _ => cases h
  | pointer x =>
    cases x with
    | branchIf value equal => exact .inr (lacksTarget_testAndGo _ f hf)
    | _ => cases h
  | _ => cases h

/-- An instruction complains of a missing word only if the next one is missing. -/
theorem missesWord_of_run {i : Instruction} {a : Address}
    (hf : (cpu.run i).fault = some (.outsideRom a)) : cpu.MissesWord (.outsideRom a) := by
  cases htest : i.isTestAndGo cpu.hardware with
  | false =>
    rcases failsEarly_run htest _ hf with ⟨-, ⟨n, hptr⟩ | hbound | hmiss⟩
    · cases hptr
    · cases hbound
    · exact hmiss
  | true =>
    rcases fault_of_isTestAndGo htest hf with ⟨-, n, hptr⟩ | ⟨-, hmiss⟩
    · cases hptr
    · exact hmiss

/-! ## 4. What a nop leaves -/

theorem decode_zero (hw : Hardware) : Instruction.decode hw 0 = .ok .nop := by
  unfold Instruction.decode
  cases hw.family <;> rfl

/-- The processor with another image. -/
def withRom (cpu : Processor) (rom : Rom) : Processor := { cpu with rom := rom }

/-- The processor after a tick with a nop in place of the word at the program counter. -/
def afterNop (cpu : Processor) : Processor :=
  (cpu.withRom (cpu.rom.put cpu.pc 0)).tick.cpu.withRom cpu.rom

theorem raise_withRom (cpu : Processor) (rom : Rom) (i : Nat) (v : Bool) :
    (cpu.withRom rom).raise i v = (cpu.raise i v).withRom rom := by
  unfold raise
  split <;> rfl

/-- Latching does not look at the image. -/
theorem latchInputs_withRom (cpu : Processor) (rom : Rom) :
    (cpu.withRom rom).latchInputs = cpu.latchInputs.withRom rom := by
  have hhardware : (cpu.withRom rom).hardware = cpu.hardware := rfl
  unfold latchInputs
  dsimp only
  rw [hhardware]
  cases cpu.hardware.inputs <;> simp only [raise_withRom] <;> rfl

theorem afterNop_eq {word : Nat} (h : cpu.isRunning = true)
    (hword : cpu.rom.word? cpu.pc = some word) : cpu.afterNop = { cpu.ready with opcode := 0 } := by
  have hlt : cpu.pc < cpu.rom.words.size := (Array.getElem?_eq_some_iff.mp hword).1
  have hnop : (cpu.rom.put cpu.pc 0).word? cpu.pc = some 0 :=
    Array.getElem?_setIfInBounds_self_of_lt hlt
  have hready : (cpu.withRom (cpu.rom.put cpu.pc 0)).ready
      = cpu.ready.withRom (cpu.rom.put cpu.pc 0) := by
    unfold ready
    rw [latchInputs_withRom]
    rfl
  have hrunning : (cpu.withRom (cpu.rom.put cpu.pc 0)).isRunning = true := h
  obtain ⟨htick, -⟩ := tick_of_word? hrunning hnop
  unfold afterNop
  rw [htick, hready, execute_of_decode (decode_zero _)]
  show ({ cpu.ready with rom := cpu.rom, opcode := 0 } : Processor) = _
  rw [← cpu.ready_rom]

/-! ## 5. What a failed tick leaves -/

/-- The word is a test that goes to the address in the next word, and the fault is that a word was
missing. -/
def LostTarget (cpu : Processor) (word : Nat) (f : Fault) : Prop :=
  ∃ i a, Instruction.decode cpu.hardware word = .ok i ∧ i.isTestAndGo cpu.hardware = true ∧
    f = .outsideRom a

/-- The carry is clear before the instruction, so a test that holds leaves a nop but for the carry
before. -/
theorem tested_ready (cpu : Processor) :
    cpu.ready.tested = { cpu.ready with flags := { cpu.ready.flags with prevCarry := true } } :=
  rfl

/-- The state and the fault of a tick that fails with a word fetched. -/
theorem failed_tick {f : Fault} {word : Nat} (hrunning : cpu.isRunning = true)
    (hword : cpu.rom.word? cpu.pc = some word) (hfault : cpu.tick.fault = some f) :
    (cpu.tick.cpu = { cpu.ready with opcode := word } ∧ ¬cpu.LostTarget word f ∧
      (f = .unexpectedOpcode cpu.pc word ∨ (∃ n, f = .pointerOutOfRange cpu.pc n) ∨
        f = .outOfBounds cpu.pc ∨ f = .outsideRom cpu.ready.pc)) ∨
    (cpu.tick.cpu = { cpu.ready.tested with opcode := word } ∧ cpu.LostTarget word f ∧
      f = .outsideRom cpu.ready.pc) := by
  rcases tick_cases cpu with ⟨hhalted, -⟩ | ⟨-, hnone, -⟩ | ⟨w, e, -, hw, hdecode, hcpu, hf⟩ |
    ⟨w, i, hi, hcpu, hf⟩
  · rw [hrunning] at hhalted
    cases hhalted
  · rw [hword] at hnone
    cases hnone
  · obtain rfl : word = w := Option.some.inj (hword.symm.trans hw)
    obtain rfl := Option.some.inj (hfault.symm.trans hf)
    refine .inl ⟨hcpu, ?_, ?_⟩
    · rintro ⟨i, a, hok, -, -⟩
      rw [hdecode] at hok
      cases hok
    · cases e with
      | undefined => exact .inl rfl
      | operandTooWide => exact .inr (.inr (.inl rfl))
  · obtain rfl : word = w := Option.some.inj (hword.symm.trans hi.word_eq)
    have hrun : (cpu.ready.run i).fault = some f := hf ▸ hfault
    cases htest : i.isTestAndGo cpu.hardware with
    | false =>
      obtain ⟨hsame, hkind⟩ := failsEarly_run (by rw [ready_hardware]; exact htest) f hrun
      rw [hsame] at hcpu
      rw [ready_last] at hkind
      refine .inl ⟨hcpu, ?_, ?_⟩
      · rintro ⟨j, a, hok, hj, -⟩
        rw [hi.decode_eq] at hok
        cases hok
        rw [htest] at hj
        cases hj
      · rcases hkind with hptr | hbound | hmiss
        · exact .inr (.inl hptr)
        · exact .inr (.inr (.inl hbound))
        · exact .inr (.inr (.inr hmiss.2))
    | true =>
      rcases fault_of_isTestAndGo (by rw [ready_hardware]; exact htest) hrun with
        ⟨hsame, n, hptr⟩ | ⟨htested, hmiss⟩
      · rw [hsame] at hcpu
        rw [ready_last] at hptr
        refine .inl ⟨hcpu, ?_, .inr (.inl ⟨n, hptr⟩)⟩
        rintro ⟨j, a, -, -, hout⟩
        rw [hptr] at hout
        cases hout
      · rw [htested] at hcpu
        exact .inr ⟨hcpu, ⟨i, _, hi.decode_eq, htest, hmiss.2⟩, hmiss.2⟩

/-- **A tick that fails leaves the state that a nop would have left**, with the failing word as the
last opcode and, if a test held and found no target, with the carry before set.  If there was no
word to begin with, nothing has happened but the latching of the inputs. -/
theorem failed_tick_leaves_nop {f : Fault} (hrunning : cpu.isRunning = true)
    (hfault : cpu.tick.fault = some f) :
    (cpu.rom.word? cpu.pc = none →
      f = .outsideRom cpu.pc ∧ cpu.tick.cpu = cpu.latchInputs ∧
        ChangesOnly [.status, .modeFlag, .keyFlag] cpu cpu.tick.cpu) ∧
    (∀ word, cpu.rom.word? cpu.pc = some word →
      (∀ a w, f = .unexpectedOpcode a w → a = cpu.pc ∧ w = word) ∧
      (∀ a n, f = .pointerOutOfRange a n → a = cpu.pc) ∧
      (¬cpu.LostTarget word f → cpu.tick.cpu = { cpu.afterNop with opcode := word }) ∧
      (cpu.LostTarget word f → cpu.tick.cpu =
        { cpu.afterNop with
          opcode := word, flags := { cpu.afterNop.flags with prevCarry := true } }) ∧
      ChangesOnly [.status, .modeFlag, .keyFlag, .pc, .last, .carry, .prevCarry, .opcode] cpu
        cpu.tick.cpu) := by
  constructor
  · intro hword
    have htick := tick_of_word?_eq_none hrunning hword
    rw [htick] at hfault ⊢
    cases hfault
    exact ⟨rfl, rfl, cpu.changesOnly_latchInputs⟩
  · intro word hword
    rw [afterNop_eq hrunning hword]
    have hready : ChangesOnly [.status, .modeFlag, .keyFlag, .pc, .last, .carry, .prevCarry,
        .opcode] cpu cpu.ready :=
      cpu.changesOnly_ready.mono (by simp)
    rcases failed_tick hrunning hword hfault with ⟨hcpu, hlost, hkind⟩ | ⟨hcpu, hlost, hf⟩
    · refine ⟨?_, ?_, fun _ => hcpu, fun h => absurd h hlost, ?_⟩
      · rintro a w rfl
        simpa using hkind
      · rintro a n rfl
        simpa using hkind
      · rw [hcpu]
        exact hready.trans ((changesOnly_opcode _ word).mono (by simp))
    · subst hf
      rw [tested_ready] at hcpu
      refine ⟨nofun, nofun, fun h => absurd hlost h, fun _ => hcpu, ?_⟩
      rw [hcpu]
      refine hready.trans ?_
      intro c hc
      cases c with
      | prevCarry | opcode => exact absurd (by simp) hc
      | _ => rfl

/-- A test that holds in the last word of an image. -/
theorem failed_tick_leaves_nop_test :
    let cpu := Processor.new .hp35 ⟨#[0o154]⟩
    cpu.tick.fault = some (.outsideRom 1) ∧
      cpu.tick.cpu =
        { cpu.afterNop with
          opcode := 0o154, flags := { cpu.afterNop.flags with prevCarry := true } } := by
  have hfault : (Processor.new .hp35 ⟨#[0o154]⟩).tick.fault = some (.outsideRom 1) := rfl
  refine ⟨hfault, ?_⟩
  obtain ⟨-, -, -, hcpu, -⟩ := (failed_tick_leaves_nop rfl hfault).2 0o154 rfl
  exact hcpu ⟨.pointer (.branchIf 1 false), 1, rfl, rfl, rfl⟩

end Processor

end Calculator

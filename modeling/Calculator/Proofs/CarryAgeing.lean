/-
# How long a carry lives

A processor keeps two carries: the one that the last instruction left, and the one that the running
instruction found.  Advancing turns the first into the second, so a carry lives for the instruction
that follows and no longer.  `CarryAges` says what a tick that succeeds does with both, and
`carry_ages` that every such tick does it.

Advancing twice loses the carry before.  A long branch puts it back between the two; loading a word
does not (`carry_lost_by_loadImmediate`).
-/
import Calculator.Proofs.Fault

namespace Calculator

/-! ## 1. What instructions have to do with carries -/

/-- Whether the operation leaves what its adder carries out of the span. -/
def ArithmeticOp.isSum : ArithmeticOp → Bool
  | add _ _ _ | subtract _ _ _ | increment _ | decrement _ | negate _ | negateDecrement _ => true
  | _ => false

/-- What a test of registers finds in a span.  Less means that a difference without a borrow to begin
with ends in one. -/
def ArithmeticOp.outcome? (cpu : Processor) (s : Span) : ArithmeticOp → Option Bool
  | ifZero r => some ((cpu.register r).slice s == Register.zero.slice s)
  | ifNotZero r => some ((cpu.register r).slice s != Register.zero.slice s)
  | ifLess r₁ r₂ => some (borrow r₁ r₂)
  | ifGreaterOrEqual r₁ r₂ => some (!borrow r₁ r₂)
  | ifNotEqual r₁ r₂ => some ((cpu.register r₁).slice s != (cpu.register r₂).slice s)
  | _ => none
where
  borrow (r₁ r₂ : RegisterName) : Bool :=
    (Serial.subtract cpu.base.radix false ((cpu.register r₁).slice s)
      ((cpu.register r₂).slice s)).2

namespace Instruction

/-- What a test finds, if the instruction is one. -/
def outcome? (cpu : Processor) : Instruction → Option Bool
  | .arithmetic op field =>
    match cpu.spanOf? field with
    | .ok s => op.outcome? cpu s
    | .error _ => none
  | .status (.test bit) => some (cpu.readStatus bit)
  | .status (.branchIf bit value) => some (cpu.readStatus bit == value)
  | .status .testKeyboard => some cpu.keyboard.flag
  | .pointer (.test value) => some (cpu.pointer == value)
  | .pointer (.branchIf value equal) => some ((cpu.p == value) == equal)
  | .pointer .testPair => some (cpu.p == cpu.q)
  | _ => none

/-- Whether the instruction shifts to the left or rotates, which clears the carry before as well. -/
def shiftsUp : Instruction → Bool
  | .arithmetic (.shiftLeft _) _ | .control .rotateLeftA => true
  | .control (.rotateRightC n) => n != 0
  | _ => false

/-- Whether the instruction may leave a carry: a sum or a difference, a test that goes nowhere, or
powering down. -/
def setsCarry (hw : Hardware) : Instruction → Bool
  | .arithmetic op _ => op.isSum || op.isTest && hw.family == .nut
  | .status (.test _) | .status .testKeyboard | .pointer (.test _) | .pointer .testPair
  | .control .powerOff => true
  | _ => false

end Instruction

/-- The carry on which a conditional jump is taken. -/
def FlowOp.jumpsOn : FlowOp → Option Bool
  | branch _ => some false
  | returnIf carry | branchBy _ carry => some carry
  | _ => none

namespace Processor

/-- Where a conditional jump leads if it is taken. -/
def taken (cpu : Processor) : FlowOp → Processor
  | .branch target => settlePage { cpu with pc := cpu.pc.page ||| target }
  | .returnIf _ => cpu.ret
  | .branchBy offset _ => { cpu with pc := ((cpu.last + offset) % 0x10000).toNat }
  | _ => cpu

/-- Where a long branch with the second word leads if it is taken.  A subroutine beyond the image is
not entered. -/
def takenFar (cpu : Processor) (low second : Nat) : Processor :=
  let target := low ||| second / 4 % 0x100 * 0x100
  if second % 4 < 2 then
    if target < cpu.hardware.romSize then cpu.call target else cpu
  else { cpu with pc := target }

/-- What a tick does with the carries, when it executes the instruction of the word and succeeds. -/
structure CarryAges (cpu : Processor) (word : Nat) (i : Instruction) : Prop where
  /-- A conditional jump decides on the carry that the tick before has left. -/
  jump : ∀ x b, i = .flow x → x.jumpsOn = some b →
    cpu.tick.cpu =
      { (if cpu.flags.carry = b then cpu.ready.taken x else cpu.ready) with opcode := word }
  /-- So does a long branch, which goes past its second word and keeps the carry before. -/
  longBranch : ∀ low, i = .flow (.longBranch low) → ∃ second,
    cpu.rom.word? cpu.ready.pc = some second ∧
    let passed := { cpu.ready with pc := cpu.hardware.next cpu.ready.pc }
    cpu.tick.cpu =
      { (if cpu.flags.carry = (second % 2 == 1) then passed.takenFar low second else passed) with
        opcode := word }
  /-- A test that goes on to an address leaves its outcome as the carry before. -/
  testAndGo : i.isTestAndGo cpu.hardware = true → ∃ t, i.outcome? cpu.ready = some t ∧
    cpu.tick.cpu.flags.prevCarry = t ∧ cpu.tick.cpu.flags.carry = false
  /-- Any other test leaves it as the carry. -/
  test : i.isTestAndGo cpu.hardware = false → ∀ t, i.outcome? cpu.ready = some t →
    cpu.tick.cpu.flags.carry = t
  shiftsUp : i.shiftsUp = true → cpu.tick.cpu.flags.prevCarry = false
  /-- Loading a word advances a second time, and with that the carry before is lost. -/
  loadImmediate : i = .digit .loadImmediate → cpu.tick.cpu.flags.prevCarry = false
  /-- All other instructions leave the carry that they found as the carry before. -/
  prevCarry : i.isTestAndGo cpu.hardware = false → i.shiftsUp = false →
    i ≠ .digit .loadImmediate → cpu.tick.cpu.flags.prevCarry = cpu.flags.carry
  /-- There is no carry but the one that this instruction has set. -/
  carry : cpu.tick.cpu.flags.carry = true →
    i.setsCarry cpu.hardware = true ∧
      (i = .control .powerOff → cpu.flags.displayEnable = false)

variable {cpu : Processor}

/-! ## 2. Arithmetic -/

/-- A test leaves its outcome in the carry, given that it found none there. -/
theorem carry_of_outcome? {op : ArithmeticOp} {s : Span} {t : Bool} (hc : cpu.flags.carry = false)
    (h : op.outcome? cpu s = some t) : (cpu.applyArithmetic op s).flags.carry = t := by
  cases op with
  | ifZero r | ifNotZero r | ifNotEqual r₁ r₂ =>
    cases h
    rfl
  | ifLess r₁ r₂ | ifGreaterOrEqual r₁ r₂ =>
    simp only [ArithmeticOp.outcome?, ArithmeticOp.outcome?.borrow, ← hc, Option.some.injEq] at h
    exact h
  | _ => cases h

theorem exists_outcome? {op : ArithmeticOp} (h : op.isTest = true) (cpu : Processor) (s : Span) :
    ∃ t, op.outcome? cpu s = some t := by
  cases op <;> first | exact ⟨_, rfl⟩ | cases h

/-- What an operation leaves in the carry is a sum's or a test's. -/
theorem isSum_or_isTest {op : ArithmeticOp} {s : Span} (hc : cpu.flags.carry = false)
    (h : (cpu.applyArithmetic op s).flags.carry = true) : op.isSum = true ∨ op.isTest = true := by
  have hframe : Component.carry ∉ op.footprint → False := by
    intro hno
    have hkept : (cpu.applyArithmetic op s).flags.carry = cpu.flags.carry :=
      cpu.applyArithmetic_changesOnly op s .carry hno
    rw [hkept, hc] at h
    cases h
  cases op with
  | clear | copy | exchange => exact (hframe (by simp)).elim
  | shiftLeft | shiftRight => cases h
  | ifZero | ifNotZero | ifGreaterOrEqual | ifLess | ifNotEqual => exact .inr rfl
  | _ => exact .inl rfl

/-- Only a shift to the left touches the carry before. -/
theorem applyArithmetic_prevCarry {op : ArithmeticOp} (h : ∀ r, op ≠ .shiftLeft r) (s : Span) :
    (cpu.applyArithmetic op s).flags.prevCarry = cpu.flags.prevCarry := by
  refine cpu.applyArithmetic_changesOnly op s .prevCarry ?_
  cases op with
  | shiftLeft r => exact absurd rfl (h r)
  | _ => simp

/-- A test that goes on to an address leaves its outcome behind, wherever it goes. -/
theorem testAndGo_carries (cpu : Processor) (t : Bool) :
    (cpu.testAndGo t).cpu.flags.prevCarry = t ∧ (cpu.testAndGo t).cpu.flags.carry = false := by
  cases t with
  | false => exact ⟨rfl, rfl⟩
  | true =>
    simp only [Processor.testAndGo, if_true]
    split
    · exact ⟨rfl, rfl⟩
    · split
      · exact ⟨rfl, rfl⟩
      · exact ⟨rfl, rfl⟩

/-- An arithmetic instruction that succeeds has a span to work on. -/
theorem runArithmetic_cpu {op : ArithmeticOp} {field : Field}
    (hok : (cpu.runArithmetic op field).fault = none) : ∃ s, cpu.spanOf? field = .ok s ∧
      (cpu.runArithmetic op field).cpu =
        if op.isTest ∧ cpu.hardware.family ≠ .nut then
          ((cpu.applyArithmetic op s).testAndGo (cpu.applyArithmetic op s).flags.carry).cpu
        else cpu.applyArithmetic op s := by
  unfold runArithmetic at hok ⊢
  cases hspan : cpu.spanOf? field with
  | error f =>
    rw [hspan] at hok
    cases hok
  | ok s =>
    refine ⟨s, rfl, ?_⟩
    dsimp only
    split <;> rfl

/-! ## 3. One instruction -/

variable {i : Instruction}

theorem isTestAndGo_arithmetic {hw : Hardware} {op : ArithmeticOp} (field : Field) :
    (Instruction.arithmetic op field).isTestAndGo hw = true ↔ op.isTest = true ∧ hw.family ≠ .nut := by
  simp [Instruction.isTestAndGo]

theorem run_isTestAndGo (hc : cpu.flags.carry = false) (hok : (cpu.run i).fault = none)
    (h : i.isTestAndGo cpu.hardware = true) : ∃ t, i.outcome? cpu = some t ∧
      (cpu.run i).cpu.flags.prevCarry = t ∧ (cpu.run i).cpu.flags.carry = false := by
  cases i with
  | arithmetic op field =>
    rw [isTestAndGo_arithmetic] at h
    obtain ⟨s, hspan, hcpu⟩ := runArithmetic_cpu hok
    obtain ⟨t, ht⟩ := exists_outcome? h.1 cpu s
    have hcarry := carry_of_outcome? hc ht
    rw [if_pos h, hcarry] at hcpu
    refine ⟨t, ?_, ?_⟩
    · simp only [Instruction.outcome?, hspan, ht]
    · rw [run, hcpu]
      exact testAndGo_carries _ t
  | status x =>
    cases x with
    | branchIf bit value => exact ⟨_, rfl, cpu.testAndGo_carries _⟩
    | _ => cases h
  | pointer x =>
    cases x with
    | branchIf value equal => exact ⟨_, rfl, cpu.testAndGo_carries _⟩
    | _ => cases h
  | _ => cases h

theorem run_outcome? (hc : cpu.flags.carry = false) (hok : (cpu.run i).fault = none)
    (h : i.isTestAndGo cpu.hardware = false) {t : Bool} (ht : i.outcome? cpu = some t) :
    (cpu.run i).cpu.flags.carry = t := by
  cases i with
  | arithmetic op field =>
    obtain ⟨s, hspan, hcpu⟩ := runArithmetic_cpu hok
    have hno : ¬(op.isTest = true ∧ cpu.hardware.family ≠ .nut) := by
      rw [← isTestAndGo_arithmetic field, h]
      simp
    simp only [Instruction.outcome?, hspan] at ht
    rw [if_neg hno] at hcpu
    rw [run, hcpu]
    exact carry_of_outcome? hc ht
  | status x =>
    cases x with
    | branchIf => cases h
    | test bit | testKeyboard =>
      cases ht
      rfl
    | _ => cases ht
  | pointer x =>
    cases x with
    | branchIf => cases h
    | test value =>
      cases ht
      rfl
    | testPair =>
      cases ht
      simp only [run, runPointer, Outcome.done]
      by_cases hpair : cpu.p = cpu.q
      · rw [if_pos hpair, beq_iff_eq.mpr hpair]
        rfl
      · rw [if_neg hpair, beq_eq_false_iff_ne.mpr hpair]
        exact hc
    | _ => cases ht
  | _ => cases ht

theorem rotateRight_carries (cpu : Processor) (r : RegisterName) (n : Nat) :
    (cpu.rotateRight r (n + 1)).flags.prevCarry = false ∧
      (cpu.rotateRight r (n + 1)).flags.carry = false := by
  induction n generalizing cpu with
  | zero => exact ⟨rfl, rfl⟩
  | succ n ih =>
    rw [rotateRight]
    exact ih _

theorem run_shiftsUp (hok : (cpu.run i).fault = none) (h : i.shiftsUp = true) :
    (cpu.run i).cpu.flags.prevCarry = false := by
  cases i with
  | arithmetic op field =>
    cases op with
    | shiftLeft r =>
      obtain ⟨s, -, hcpu⟩ := runArithmetic_cpu hok
      rw [run, hcpu, if_neg (by simp [ArithmeticOp.isTest])]
      rfl
    | _ => cases h
  | control x =>
    cases x with
    | rotateLeftA => rfl
    | rotateRightC n =>
      obtain ⟨k, rfl⟩ := Nat.exists_eq_succ_of_ne_zero (bne_iff_ne.mp h)
      exact (cpu.rotateRight_carries .c k).1
    | _ => cases h
  | _ => cases h

/-- Advancing past the word that was loaded finds no carry to keep. -/
theorem run_loadImmediate (hc : cpu.flags.carry = false)
    (hok : (cpu.run (.digit .loadImmediate)).fault = none) :
    (cpu.run (.digit .loadImmediate)).cpu.flags.prevCarry = false ∧
      (cpu.run (.digit .loadImmediate)).cpu.flags.carry = false := by
  simp only [run, runDigit] at hok ⊢
  split at hok
  · cases hok
  · exact ⟨hc, rfl⟩

/-- A long branch that has its second word goes past it and decides on the carry before. -/
theorem run_longBranch {low : Address} (hok : (cpu.run (.flow (.longBranch low))).fault = none) :
    ∃ second, cpu.rom.word? cpu.pc = some second ∧
      let passed := (cpu.setCarry cpu.flags.prevCarry).advance
      (cpu.run (.flow (.longBranch low))).cpu =
        if cpu.flags.prevCarry = (second % 2 == 1) then passed.takenFar low second else passed := by
  simp only [run, runFlow, Processor.longBranch] at hok ⊢
  split at hok
  · cases hok
  · rename_i second hfetch
    refine ⟨second, word?_of_fetch hfetch, ?_⟩
    have hprev : (cpu.setCarry cpu.flags.prevCarry).advance.flags.prevCarry = cpu.flags.prevCarry :=
      rfl
    unfold takenFar
    dsimp only
    rw [hprev]
    by_cases hcond : cpu.flags.prevCarry = (second % 2 == 1)
    · rw [if_neg (by simp [hcond]), if_pos hcond]
      split
      · split <;> rfl
      · rfl
    · rw [if_pos (by simpa using hcond), if_neg hcond]
      rfl

theorem longBranch_carries (cpu : Processor) (low : Address) :
    (cpu.longBranch low).cpu.flags.prevCarry = cpu.flags.prevCarry ∧
      (cpu.flags.carry = false → (cpu.longBranch low).cpu.flags.carry = false) := by
  have hcall : ∀ (cpu' : Processor) a, (cpu'.call a).flags.prevCarry = cpu'.flags.prevCarry ∧
      (cpu'.call a).flags.carry = cpu'.flags.carry := fun cpu' a =>
    ⟨cpu'.changesOnly_call a .prevCarry (by simp), cpu'.changesOnly_call a .carry (by simp)⟩
  unfold Processor.longBranch
  split
  · exact ⟨rfl, id⟩
  · dsimp only
    split
    · exact ⟨rfl, fun _ => rfl⟩
    · split
      · split
        · exact ⟨(hcall _ _).1, fun _ => (hcall _ _).2⟩
        · exact ⟨rfl, fun _ => rfl⟩
      · exact ⟨rfl, fun _ => rfl⟩

theorem run_prevCarry (hok : (cpu.run i).fault = none) (htest : i.isTestAndGo cpu.hardware = false)
    (hshift : i.shiftsUp = false) (hload : i ≠ .digit .loadImmediate) :
    (cpu.run i).cpu.flags.prevCarry = cpu.flags.prevCarry := by
  have hframe : Component.prevCarry ∉ i.footprint →
      (cpu.run i).cpu.flags.prevCarry = cpu.flags.prevCarry := cpu.run_changesOnly i .prevCarry
  cases i with
  | nop => rfl
  | arithmetic op field =>
    obtain ⟨s, -, hcpu⟩ := runArithmetic_cpu hok
    have hno : ¬(op.isTest = true ∧ cpu.hardware.family ≠ .nut) := by
      rw [← isTestAndGo_arithmetic field, htest]
      simp
    rw [run, hcpu, if_neg hno]
    refine applyArithmetic_prevCarry ?_ s
    rintro r rfl
    cases hshift
  | digit x =>
    cases x with
    | loadImmediate => exact absurd rfl hload
    | _ => exact hframe (by simp)
  | status x =>
    cases x with
    | branchIf => cases htest
    | _ => exact hframe (by simp)
  | pointer x =>
    cases x with
    | branchIf => cases htest
    | _ => exact hframe (by simp)
  | flow x =>
    cases x with
    | longBranch low => exact (cpu.longBranch_carries low).1
    | _ => exact hframe (by simp)
  | control x =>
    cases x with
    | rotateLeftA => cases hshift
    | rotateRightC n =>
      obtain rfl : n = 0 := by simpa [Instruction.shiftsUp] using hshift
      rfl
    | _ => exact hframe (by simp)
  | move x | data x | card x | printer x => exact hframe (by cases x <;> simp [RegisterName.all])

/-- A carry that is there after the instruction was set by it. -/
theorem run_carry (hc : cpu.flags.carry = false) (hok : (cpu.run i).fault = none)
    (h : (cpu.run i).cpu.flags.carry = true) :
    i.setsCarry cpu.hardware = true ∧
      (i = .control .powerOff → cpu.flags.displayEnable = false) := by
  have hframe : Component.carry ∉ i.footprint → False := by
    intro hno
    have hkept : (cpu.run i).cpu.flags.carry = cpu.flags.carry := cpu.run_changesOnly i .carry hno
    rw [hkept, hc] at h
    cases h
  have hset : (cpu.run i).cpu.flags.carry ≠ false := by simp [h]
  cases i with
  | arithmetic op field =>
    refine ⟨?_, by simp⟩
    obtain ⟨s, -, hcpu⟩ := runArithmetic_cpu hok
    rw [run, hcpu] at h
    split at h
    · rw [(testAndGo_carries _ _).2] at h
      cases h
    · rename_i hno
      rcases isSum_or_isTest hc h with hsum | htest
      · simp [Instruction.setsCarry, hsum]
      · have hnut : cpu.hardware.family = .nut := Classical.not_not.mp fun hne => hno ⟨htest, hne⟩
        simp [Instruction.setsCarry, htest, hnut]
  | digit x =>
    cases x with
    | loadImmediate => exact absurd (run_loadImmediate hc hok).2 hset
    | _ => exact (hframe (by simp)).elim
  | status x =>
    cases x with
    | test bit | testKeyboard => exact ⟨rfl, by simp⟩
    | branchIf bit value => exact absurd (cpu.testAndGo_carries _).2 hset
    | resetKeyboard =>
      simp only [run, runStatus, Outcome.done] at hset
      split at hset
      · exact absurd hc hset
      · exact absurd rfl hset
    | _ => exact (hframe (by simp)).elim
  | pointer x =>
    cases x with
    | test value | testPair => exact ⟨rfl, by simp⟩
    | branchIf value equal => exact absurd (cpu.testAndGo_carries _).2 hset
    | _ => exact (hframe (by simp)).elim
  | flow x =>
    cases x with
    | longBranch low => exact absurd ((cpu.longBranch_carries low).2 hc) hset
    | _ => exact (hframe (by simp)).elim
  | control x =>
    cases x with
    | powerOff =>
      refine ⟨rfl, fun _ => ?_⟩
      simp only [run, runControl, powerOff, Outcome.done] at h
      split at h
      · rw [hc] at h
        cases h
      · simpa using ‹¬cpu.flags.displayEnable = true›
    | rotateLeftA => exact absurd rfl hset
    | rotateRightC n =>
      cases n with
      | zero => exact absurd hc hset
      | succ n => exact absurd (cpu.rotateRight_carries .c n).2 hset
    | _ => exact (hframe (by simp)).elim
  | nop => exact (hframe (by simp)).elim
  | move x | data x | card x | printer x =>
    exact (hframe (by cases x <;> simp [RegisterName.all])).elim

/-! ## 4. Every tick -/

/-- A conditional jump is taken on the carry before. -/
theorem run_jumpsOn {x : FlowOp} {b : Bool} (h : x.jumpsOn = some b) :
    (cpu.run (.flow x)).cpu = if cpu.flags.prevCarry = b then cpu.taken x else cpu := by
  cases x with
  | branch target =>
    cases h
    cases hprev : cpu.flags.prevCarry <;> simp [run, runFlow, taken, hprev, Outcome.done]
  | returnIf carry | branchBy offset carry =>
    cases h
    rfl
  | _ => cases h

/-- The carry before survives the second advance of a long branch. -/
theorem ready_passed (cpu : Processor) :
    (cpu.ready.setCarry cpu.ready.flags.prevCarry).advance =
      { cpu.ready with pc := cpu.hardware.next cpu.ready.pc } := by
  show ({ cpu.ready with pc := cpu.ready.hardware.next cpu.ready.pc } : Processor) = _
  rw [ready_hardware]

/-- **A carry lives for one instruction.**  Whatever a tick decides on a carry, it decides on the one
that it found; it keeps that one as the carry before, save for tests that go on to an address, shifts
to the left, rotations and the loading of a word; and it leaves no carry but the one that its own
instruction has set. -/
theorem carry_ages (hrunning : cpu.isRunning = true) (hok : cpu.tick.fault = none) :
    ∃ word i, cpu.Executes word i ∧ cpu.CarryAges word i := by
  rcases tick_cases cpu with ⟨hhalted, -⟩ | ⟨-, -, heq⟩ | ⟨_, _, -, -, -, -, hf⟩ |
    ⟨word, i, hi, hcpu, hf⟩
  · rw [hrunning] at hhalted
    cases hhalted
  · rw [heq] at hok
    cases hok
  · rw [hf] at hok
    cases hok
  · have hrun : (cpu.ready.run i).fault = none := hf ▸ hok
    have hflags : cpu.tick.cpu.flags = (cpu.ready.run i).cpu.flags := by rw [hcpu]
    have hdisplay : cpu.ready.flags.displayEnable = cpu.flags.displayEnable :=
      cpu.changesOnly_ready .displayEnable (by simp)
    refine ⟨word, i, hi, ?_, ?_, ?_, ?_, ?_, ?_, ?_, ?_⟩
    · rintro x b rfl hx
      rw [hcpu, run_jumpsOn hx, ready_prevCarry]
    · rintro low rfl
      obtain ⟨second, hsecond, hbranch⟩ := run_longBranch hrun
      refine ⟨second, cpu.ready_rom ▸ hsecond, ?_⟩
      dsimp only at hbranch ⊢
      rw [hcpu, hbranch, ready_passed, ready_prevCarry]
    · intro h
      rw [hflags]
      exact run_isTestAndGo cpu.ready_carry hrun (by rwa [ready_hardware])
    · intro h t ht
      rw [hflags]
      exact run_outcome? cpu.ready_carry hrun (by rwa [ready_hardware]) ht
    · intro h
      rw [hflags]
      exact run_shiftsUp hrun h
    · rintro rfl
      rw [hflags]
      exact (run_loadImmediate cpu.ready_carry hrun).1
    · intro htest hshift hload
      rw [hflags, run_prevCarry hrun (by rwa [ready_hardware]) hshift hload, ready_prevCarry]
    · intro h
      rw [hflags] at h
      obtain ⟨hsets, hdeep⟩ := run_carry cpu.ready_carry hrun h
      rw [ready_hardware] at hsets
      rw [hdisplay] at hdeep
      exact ⟨hsets, hdeep⟩

/-- A Nut is powered on with the carry set, and a return on a carry is taken in its first tick. -/
theorem carry_ages_returnIf :
    let cpu := new .hp12c ⟨#[0o1540]⟩
    cpu.tick.fault = none ∧ cpu.flags.carry = true ∧
      ∃ word i, cpu.Executes word i ∧ cpu.CarryAges word i := by
  have hok : (new .hp12c ⟨#[0o1540]⟩).tick.fault = none := rfl
  exact ⟨hok, rfl, carry_ages rfl hok⟩

/-- The carry before is not always the carry that the tick has found where no test and no shift has
put another one: loading a word loses it. -/
theorem carry_lost_by_loadImmediate :
    ¬∀ (cpu : Processor) word i, cpu.Executes word i → cpu.tick.fault = none →
      i.isTestAndGo cpu.hardware = false → i.shiftsUp = false →
      cpu.tick.cpu.flags.prevCarry = cpu.flags.carry := by
  intro h
  have hlost := h (new .hp12c ⟨#[0o460, 0]⟩) 0o460 (.digit .loadImmediate) ⟨rfl, rfl, rfl⟩ rfl rfl rfl
  cases hlost

end Processor

end Calculator

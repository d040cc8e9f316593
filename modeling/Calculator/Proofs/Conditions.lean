/-
# What tests ask

A test leaves one bit, and on most parts the bit decides between two addresses.  What it means is
told here in numbers, digits, status bits and pointers (`ArithmeticOp.Condition`,
`Instruction.Asks`), and what a tick makes of it in addresses and flags (`EndsTest`).

A comparison subtracts in the base of the adder, whatever digits it meets.  But which digits have to
borrow does not depend on the base (`Serial.subtract_borrow`), so a comparison is always one of
hexadecimal numbers (`comparison_exact`).
-/
import Calculator.Proofs.CarryAgeing
import Calculator.Proofs.Digits
import Calculator.Proofs.Paging
import Calculator.Proofs.PointerFaults
import Calculator.Proofs.Positional

namespace Calculator

/-! ## 1. Borrowing -/

namespace Serial

variable {xs ys : List Nat}

theorem subtractDigit_borrow (radix x y : Nat) (borrow : Bool) :
    (subtractDigit radix x y borrow).2 = decide (x < y + borrow.toNat) := by
  unfold subtractDigit
  dsimp only
  split
  · exact (decide_eq_true (by omega)).symm
  · exact (decide_eq_false (by omega)).symm

/-- What is borrowed depends on the operands alone: the next position does not see the digit that the
base has a part in. -/
theorem subtract_borrow (radix radix' : Nat) (borrow : Bool) (xs ys : List Nat) :
    (subtract radix borrow xs ys).2 = (subtract radix' borrow xs ys).2 := by
  induction xs generalizing borrow ys with
  | nil => simp [subtract, along]
  | cons x xs ih =>
    cases ys with
    | nil => rfl
    | cons y ys =>
      have hdigit : (subtractDigit radix x y borrow).2 = (subtractDigit radix' x y borrow).2 := by
        rw [subtractDigit_borrow, subtractDigit_borrow]
      show (subtract radix (subtractDigit radix x y borrow).2 xs ys).2 =
        (subtract radix' (subtractDigit radix' x y borrow).2 xs ys).2
      rw [hdigit]
      exact ih _ ys

/-- **A borrow compares hexadecimal numbers**, whatever the base it is computed in. -/
theorem subtract_borrow_iff (radix : Nat) (borrow : Bool) (hlength : xs.length = ys.length)
    (hx : ∀ d ∈ xs, d < 16) (hy : ∀ d ∈ ys, d < 16) :
    (subtract radix borrow xs ys).2 = true ↔
      Nat.ofDigits 16 xs < Nat.ofDigits 16 ys + borrow.toNat := by
  rw [subtract_borrow radix 16, subtract]
  have hdigit := computes_subtractDigit (Nat.le_refl 16)
  have hvalue := hdigit.along_value borrow hlength hx hy
  have hlt := Nat.ofDigits_lt_base_pow_length (by decide) (hdigit.along_lt borrow hx hy)
  rw [length_along _ _ hlength] at hlt
  rw [← Nat.cast_pow] at hvalue
  generalize 16 ^ xs.length = top at hlt hvalue
  generalize along (subtractDigit 16) borrow xs ys = result at hlt hvalue ⊢
  obtain ⟨digits, borrow'⟩ := result
  -- The result is less than what a borrow is worth, so the sign of the difference tells the borrow.
  cases borrow' with
  | true =>
    simp only [Bool.toNat_true, true_iff] at hlt hvalue ⊢
    omega
  | false =>
    simp only [Bool.toNat_false, Bool.false_eq_true, false_iff] at hlt hvalue ⊢
    omega

end Serial

/-! ## 2. Conditions -/

/-- What a test of registers asks about the digits of a span.  A comparison reads them as hexadecimal
numbers. -/
def ArithmeticOp.Condition (cpu : Processor) (s : Span) : ArithmeticOp → Prop
  | ifZero r => ∀ i ∈ s.positions, (cpu.register r).digit i = 0
  | ifNotZero r => ∃ i ∈ s.positions, (cpu.register r).digit i ≠ 0
  | ifGreaterOrEqual r₁ r₂ => (cpu.register r₂).number 16 s ≤ (cpu.register r₁).number 16 s
  | ifLess r₁ r₂ => (cpu.register r₁).number 16 s < (cpu.register r₂).number 16 s
  | ifNotEqual r₁ r₂ => ∃ i ∈ s.positions, (cpu.register r₁).digit i ≠ (cpu.register r₂).digit i
  | _ => False

/-- What a test that goes on to an address asks: something about a field that can be selected, whether
a status bit of the part has a value, or whether P has one. -/
inductive Instruction.Asks (cpu : Processor) : Instruction → Prop → Prop
  | arithmetic {op : ArithmeticOp} {field : Field} {s : Span} (htest : op.isTest = true)
      (hspan : cpu.spanOf? field = .ok s) : Asks cpu (.arithmetic op field) (op.Condition cpu s)
  | status {bit : Nat} (value : Bool) (hbit : bit < cpu.hardware.statusBits) :
      Asks cpu (.status (.branchIf bit value)) (cpu.bit bit = value)
  | pointerEqual (value : Nat) : Asks cpu (.pointer (.branchIf value true)) (cpu.p = value)
  | pointerDifferent (value : Nat) : Asks cpu (.pointer (.branchIf value false)) (cpu.p ≠ value)

namespace Register

variable {r r' : Register} {s : Span}

theorem FourBit.numeral (h : r.FourBit) (s : Span) : r.Numeral 16 s := fun i _ => h i

theorem slice_eq_iff : r.slice s = r'.slice s ↔ ∀ i ∈ s.positions, r.digit i = r'.digit i :=
  List.map_inj_left

theorem slice_ne_iff : r.slice s ≠ r'.slice s ↔ ∃ i ∈ s.positions, r.digit i ≠ r'.digit i := by
  simp only [ne_eq, slice_eq_iff, not_forall, exists_prop]

end Register

namespace Processor

variable {cpu : Processor} {s : Span}

/-- The adder compares registers, whatever base it is set to. -/
theorem borrow_iff (hdigits : ∀ r, (cpu.register r).FourBit) (radix : Nat) (borrow : Bool)
    (r₁ r₂ : RegisterName) (s : Span) :
    (Serial.subtract radix borrow ((cpu.register r₁).slice s) ((cpu.register r₂).slice s)).2 = true ↔
      (cpu.register r₁).number 16 s < (cpu.register r₂).number 16 s + borrow.toNat := by
  have h₁ := Register.numeral_iff.mp ((hdigits r₁).numeral s)
  have h₂ := Register.numeral_iff.mp ((hdigits r₂).numeral s)
  exact Serial.subtract_borrow_iff radix borrow (by simp) h₁ h₂

/-- A test of registers finds just what it asks. -/
theorem outcome?_iff_condition (hdigits : ∀ r, (cpu.register r).FourBit) {op : ArithmeticOp} {t : Bool}
    (h : op.outcome? cpu s = some t) : t = true ↔ op.Condition cpu s := by
  have hless : ∀ r₁ r₂, ArithmeticOp.outcome?.borrow cpu s r₁ r₂ = true ↔
      (cpu.register r₁).number 16 s < (cpu.register r₂).number 16 s :=
    fun r₁ r₂ => borrow_iff hdigits cpu.base.radix false r₁ r₂ s
  cases op with
  | ifZero r =>
    cases h
    rw [beq_iff_eq, Register.slice_eq_iff]
    simp only [ArithmeticOp.Condition, Register.digit_zero]
  | ifNotZero r =>
    cases h
    rw [bne_iff_ne, Register.slice_ne_iff]
    simp only [ArithmeticOp.Condition, Register.digit_zero]
  | ifNotEqual r₁ r₂ =>
    cases h
    rw [bne_iff_ne, Register.slice_ne_iff]
    rfl
  | ifLess r₁ r₂ =>
    cases h
    exact hless r₁ r₂
  | ifGreaterOrEqual r₁ r₂ =>
    cases h
    rw [Bool.not_eq_true', ← Bool.not_eq_true, hless, Nat.not_lt]
    rfl
  | _ => cases h

theorem condition_congr {cpu' : Processor} (h : ∀ r, cpu'.register r = cpu.register r)
    (op : ArithmeticOp) (s : Span) : op.Condition cpu' s ↔ op.Condition cpu s := by
  cases op <;> simp only [ArithmeticOp.Condition, h]

end Processor

/-! ## 3. Where a test goes -/

/-- Where a test that holds goes from the address after it.  A Classic part stays in the page and drops
the lowest two bits of the target; the others stay in the chip. -/
def Hardware.landing (hw : Hardware) (pc : Address) (target : Nat) : Address :=
  match hw.family with
  | .classic => pc.page ||| target / 4
  | _ => pc / 0x400 * 0x400 ||| target

/-- A target of ten bits fits into the page or the chip. -/
theorem Hardware.landing_eq (hw : Hardware) (pc : Address) {target : Nat} (h : target < 0x400) :
    hw.landing pc target =
      if hw.family = .classic then pc / 0x100 * 0x100 + target / 4
      else pc / 0x400 * 0x400 + target := by
  have hchip : pc / 0x400 * 0x400 ||| target = pc / 0x400 * 0x400 + target := by
    rw [Nat.mul_comm]
    exact (Nat.two_pow_add_eq_or_of_lt (i := 10) h _).symm
  unfold landing
  cases hw.family with
  | classic => exact pc.page_or (by omega)
  | woodstock | nut => exact hchip

/-- No address comes after itself. -/
theorem Model.next_ne (model : Model) (pc : Address) : model.hardware.next pc ≠ pc := by
  have hsize : 1 < model.hardware.romSize := by cases model <;> decide
  unfold Hardware.next Address.page Address.bank
  unfold Address at *
  split
  · omega
  · split <;> omega

namespace Processor

/-- What a tick makes of a test with outcome `t` that goes on to an address. -/
structure EndsTest (cpu : Processor) (t : Bool) : Prop where
  taken : t = true → ∀ target, cpu.rom.word? (cpu.hardware.next cpu.pc) = some target →
    cpu.tick.fault = none ∧
      cpu.tick.cpu.pc = cpu.hardware.landing (cpu.hardware.next cpu.pc) target
  /-- There is no going on to a word that is not there. -/
  lost : t = true → cpu.rom.word? (cpu.hardware.next cpu.pc) = none →
    cpu.tick.fault = some (.outsideRom (cpu.hardware.next cpu.pc))
  passed : t = false → cpu.tick.fault = none ∧
    cpu.tick.cpu.pc = cpu.hardware.next (cpu.hardware.next cpu.pc) ∧
      cpu.tick.cpu.pc ≠ cpu.hardware.next cpu.pc
  carry : cpu.tick.cpu.flags.carry = false
  prevCarry : cpu.tick.cpu.flags.prevCarry = t
  frame : ChangesOnly tickFootprint cpu cpu.tick.cpu

variable {cpu : Processor} {s : Span} {word : Nat} {i : Instruction}

theorem testAndGo_of_word? {target : Nat} (h : cpu.rom.word? cpu.pc = some target) :
    (cpu.testAndGo true).fault = none ∧
      (cpu.testAndGo true).cpu.pc = cpu.hardware.landing cpu.pc target := by
  simp only [testAndGo, fetch, h, if_true, Hardware.landing, hardware]
  cases cpu.model.hardware.family <;> exact ⟨rfl, rfl⟩

theorem testAndGo_of_word?_eq_none (h : cpu.rom.word? cpu.pc = none) :
    (cpu.testAndGo true).fault = some (.outsideRom cpu.pc) := by
  simp only [testAndGo, fetch, h, if_true, Outcome.fail]

/-- A tick that ends the way a test ends. -/
theorem Executes.endsTest {t : Bool} (h : cpu.Executes word i)
    (hcpu : (cpu.ready.run i).cpu = (cpu.ready.testAndGo t).cpu)
    (hfault : (cpu.ready.run i).fault = (cpu.ready.testAndGo t).fault) : cpu.EndsTest t := by
  obtain ⟨htick, htickfault⟩ := h.tick_eq
  rw [hcpu] at htick
  rw [hfault] at htickfault
  obtain ⟨hprev, hcarry⟩ := testAndGo_carries cpu.ready t
  have hpc : cpu.tick.cpu.pc = (cpu.ready.testAndGo t).cpu.pc := by rw [htick]
  refine ⟨?_, ?_, ?_, by rw [htick, hcarry], by rw [htick, hprev], ?_⟩
  · rintro rfl target htarget
    have hready : cpu.ready.rom.word? cpu.ready.pc = some target := by
      rw [ready_rom, ready_pc, htarget]
    obtain ⟨hdone, hlanding⟩ := testAndGo_of_word? hready
    rw [htickfault, hpc, hlanding, ready_hardware, ready_pc]
    exact ⟨hdone, rfl⟩
  · rintro rfl hnone
    have hready : cpu.ready.rom.word? cpu.ready.pc = none := by rw [ready_rom, ready_pc, hnone]
    rw [htickfault, testAndGo_of_word?_eq_none hready, ready_pc]
  · rintro rfl
    have hnext : cpu.tick.cpu.pc = cpu.hardware.next (cpu.hardware.next cpu.pc) := by
      rw [hpc, ← cpu.ready_pc, ← cpu.ready_hardware]
      rfl
    refine ⟨htickfault, hnext, ?_⟩
    rw [hnext]
    exact cpu.model.next_ne _
  · have hrun := changesOnly_testAndGo cpu.ready t
    rw [← hcpu] at hrun
    exact (h.tick_changesOnly hrun).mono (by simp [tickFootprint])

/-! ## 4. Tests of registers -/

/-- A test of registers goes on with its outcome, or leaves it in the carry on a Nut. -/
theorem runArithmetic_of_outcome? {op : ArithmeticOp} {field : Field} {t : Bool}
    (hc : cpu.flags.carry = false) (hspan : cpu.spanOf? field = .ok s) (htest : op.isTest = true)
    (ht : op.outcome? cpu s = some t) :
    (cpu.hardware.family ≠ .nut → (cpu.runArithmetic op field).cpu = (cpu.testAndGo t).cpu ∧
      (cpu.runArithmetic op field).fault = (cpu.testAndGo t).fault) ∧
    (cpu.hardware.family = .nut → (cpu.runArithmetic op field).cpu = cpu.setCarry t ∧
      (cpu.runArithmetic op field).fault = none) := by
  have happly : cpu.applyArithmetic op s = cpu.setCarry t := by
    obtain ⟨v, hv⟩ := cpu.applyArithmetic_of_isTest htest s
    have hcarry := carry_of_outcome? hc ht
    rw [hv] at hcarry ⊢
    exact congrArg cpu.setCarry hcarry
  simp only [runArithmetic, hspan, happly]
  refine ⟨fun hother => ?_, fun hnut => ?_⟩
  · rw [if_pos ⟨htest, hother⟩]
    exact ⟨rfl, rfl⟩
  · rw [if_neg fun hboth => hboth.2 hnut]
    exact ⟨rfl, rfl⟩

/-- A tick that executes a test of registers decides what the test asks. -/
theorem Executes.decides {op : ArithmeticOp} {field : Field}
    (h : cpu.Executes word (.arithmetic op field)) (hdigits : ∀ r, (cpu.register r).FourBit)
    (hspan : cpu.spanOf? field = .ok s) (htest : op.isTest = true) :
    ∃ t, (t = true ↔ op.Condition cpu s) ∧
      (cpu.hardware.family ≠ .nut → cpu.EndsTest t) ∧
      (cpu.hardware.family = .nut → cpu.tick.fault = none ∧ cpu.tick.cpu.flags.carry = t ∧
        ChangesOnly tickFootprint cpu cpu.tick.cpu) := by
  have hregister : ∀ r, cpu.ready.register r = cpu.register r :=
    fun r => cpu.changesOnly_ready (.register r) (by simp)
  obtain ⟨t, ht⟩ := exists_outcome? htest cpu.ready s
  obtain ⟨hother, hnut⟩ := runArithmetic_of_outcome? cpu.ready_carry (spanOf?_ready hspan) htest ht
  rw [ready_hardware] at hother hnut
  refine ⟨t, ?_, fun hf => h.endsTest (hother hf).1 (hother hf).2, fun hf => ?_⟩
  · rw [outcome?_iff_condition (fun r => hregister r ▸ hdigits r) ht]
    exact condition_congr hregister op s
  · obtain ⟨htick, htickfault⟩ := h.tick_eq
    obtain ⟨hcpu, hfault⟩ := hnut hf
    rw [run, hcpu] at htick
    rw [run, hfault] at htickfault
    have hrun := changesOnly_setCarry cpu.ready t
    rw [← hcpu] at hrun
    refine ⟨htickfault, by rw [htick]; rfl, ?_⟩
    exact (h.tick_changesOnly hrun).mono (by simp [tickFootprint])

/-- **A comparison is exact**, whatever the digits and whatever the base of the adder.  Without a
destination a difference leaves in the carry whether the first number is less than the second with the
carry added to it.  A tick advances before it compares, so there is no carry to add: on a Nut it
leaves in the carry which number is less, and on other parts it goes on the other case. -/
theorem comparison_exact (cpu : Processor) (hdigits : ∀ r, (cpu.register r).FourBit)
    (r₁ r₂ : RegisterName) (s : Span) :
    ((cpu.subtract none (some r₁) (some r₂) s).flags.carry = true ↔
      (cpu.register r₁).number 16 s < (cpu.register r₂).number 16 s + cpu.flags.carry.toNat) ∧
    ChangesOnly [.carry] cpu (cpu.subtract none (some r₁) (some r₂) s) ∧
    (∀ word field, cpu.Executes word (.arithmetic (.ifGreaterOrEqual r₁ r₂) field) →
      cpu.hardware.family ≠ .nut → cpu.spanOf? field = .ok s →
      cpu.EndsTest (decide ((cpu.register r₂).number 16 s ≤ (cpu.register r₁).number 16 s))) ∧
    (∀ word field, cpu.Executes word (.arithmetic (.ifLess r₁ r₂) field) →
      cpu.hardware.family = .nut → cpu.spanOf? field = .ok s →
      cpu.tick.fault = none ∧
        cpu.tick.cpu.flags.carry =
          decide ((cpu.register r₁).number 16 s < (cpu.register r₂).number 16 s) ∧
        ChangesOnly tickFootprint cpu cpu.tick.cpu) := by
  refine ⟨borrow_iff hdigits _ _ r₁ r₂ s, cpu.changesOnly_setCarry _, ?_, ?_⟩
  · intro word field h hother hspan
    obtain ⟨t, ht, hends, -⟩ := h.decides hdigits hspan rfl
    have hnotLess : t = true ↔ (cpu.register r₂).number 16 s ≤ (cpu.register r₁).number 16 s := ht
    rw [← Bool.eq_iff_iff.mpr (hnotLess.trans decide_eq_true_iff.symm)]
    exact hends hother
  · intro word field h hnut hspan
    obtain ⟨t, ht, -, hleft⟩ := h.decides hdigits hspan rfl
    have hless : t = true ↔ (cpu.register r₁).number 16 s < (cpu.register r₂).number 16 s := ht
    rw [← Bool.eq_iff_iff.mpr (hless.trans decide_eq_true_iff.symm)]
    exact hleft hnut

/-- Two digits that are none in decimal, compared by a part that computes in it. -/
theorem comparison_exact_above_nine :
    let cpu := ((new .hp21 ⟨#[0o1432, 0, 0]⟩).setRegister .a (Register.zero.put 0 0xa)).setRegister
      .c (Register.zero.put 0 0xf)
    (∀ r, (cpu.register r).FourBit) ∧ cpu.base = .decimal ∧
      (cpu.subtract none (some .a) (some .c) .word).flags.carry = true ∧ cpu.EndsTest false := by
  have hdigits : ∀ r, ((((new .hp21 ⟨#[0o1432, 0, 0]⟩).setRegister .a
      (Register.zero.put 0 0xa)).setRegister .c (Register.zero.put 0 0xf)).register r).FourBit := by
    intro r
    cases r with
    | a | c => exact Register.fourBit_zero.put 0 (by decide)
    | _ => exact Register.fourBit_zero
  obtain ⟨hcarry, -, hends, -⟩ := comparison_exact _ hdigits .a .c .word
  refine ⟨hdigits, rfl, hcarry.mpr (by decide), ?_⟩
  exact hends 0o1432 .word ⟨rfl, rfl, rfl⟩ (by decide) rfl

/-! ## 5. Every test -/

/-- What a test that goes on to an address asks once the inputs are latched, the tick decides. -/
theorem Executes.ends_of_asks {Q : Prop} (h : cpu.Executes word i)
    (hdigits : ∀ r, (cpu.register r).FourBit) (hother : cpu.hardware.family ≠ .nut)
    (hasks : i.Asks cpu.latchInputs Q) : ∃ t, (t = true ↔ Q) ∧ cpu.EndsTest t := by
  cases hasks with
  | @arithmetic op field s htest hspan =>
    have hlatched : cpu.spanOf? field = .ok s :=
      spanOf?_congr (cpu.changesOnly_latchInputs .p (by simp)).symm
        (cpu.changesOnly_latchInputs .q (by simp)).symm
        (cpu.changesOnly_latchInputs .active (by simp)).symm hspan
    obtain ⟨t, ht, hends, -⟩ := h.decides hdigits hlatched htest
    refine ⟨t, ht.trans (condition_congr (fun r => ?_) op s).symm, hends hother⟩
    exact cpu.changesOnly_latchInputs (.register r) (by simp)
  | @status bit value hbit =>
    have hread : cpu.ready.readStatus bit = cpu.latchInputs.bit bit := if_pos hbit
    refine ⟨_, beq_iff_eq, h.endsTest (t := cpu.latchInputs.bit bit == value) ?_ ?_⟩
    · rw [← hread]
      rfl
    · rw [← hread]
      rfl
  | pointerEqual value =>
    refine ⟨_, ?_, h.endsTest (t := (cpu.ready.p == value) == true) rfl rfl⟩
    rw [beq_true, beq_iff_eq]
    rfl
  | pointerDifferent value =>
    refine ⟨_, ?_, h.endsTest (t := (cpu.ready.p == value) == false) rfl rfl⟩
    rw [beq_false, Bool.not_eq_true', beq_eq_false_iff_ne]
    rfl

/-- **A test decides between two addresses.**  On every part but a Nut, whatever a test asks about a
field, a status bit or P, once the inputs are latched, the tick goes to the target in the next word if
it holds and past that word if it does not; it keeps the outcome as the carry before, and that is
all. -/
theorem testAndGo_decides {model : Model} {rom : Rom} {allowed : Processor → Act → Prop}
    (hother : model.hardware.family ≠ .nut) (hrom : rom.TenBit)
    (h : Reaches allowed (new model rom) cpu) {Q : Prop} (hi : cpu.Executes word i)
    (hasks : i.Asks cpu.latchInputs Q) :
    ∃ t, (t = true ↔ Q) ∧ cpu.EndsTest t ∧
      ∀ pc target, cpu.rom.word? pc = some target →
        cpu.hardware.landing pc target =
          if cpu.hardware.family = .classic then pc / 0x100 * 0x100 + target / 4
          else pc / 0x400 * 0x400 + target := by
  have hfamily : cpu.hardware.family ≠ .nut := by
    rw [hardware, h.model_rom.1]
    exact hother
  obtain ⟨t, ht, hends⟩ := hi.ends_of_asks (digitsFit_of_reaches hrom h).register hfamily hasks
  refine ⟨t, ht, hends, fun pc target htarget => cpu.hardware.landing_eq pc ?_⟩
  rw [h.model_rom.2] at htarget
  exact hrom.lt htarget

/-- A pointer that is not at three, in the first tick of a Classic part. -/
theorem testAndGo_decides_pointer :
    let cpu := new .hp45 ⟨#[0o354, 0o1240]⟩
    cpu.EndsTest true ∧ cpu.tick.fault = none ∧ cpu.tick.cpu.pc = 0o250 := by
  have hrom : Rom.TenBit ⟨#[0o354, 0o1240]⟩ := by simp [Rom.TenBit]
  have hi : (new .hp45 ⟨#[0o354, 0o1240]⟩).Executes 0o354 (.pointer (.branchIf 3 false)) :=
    ⟨rfl, rfl, rfl⟩
  have hstart : Reaches (fun _ _ => True) (new .hp45 ⟨#[0o354, 0o1240]⟩)
      (new .hp45 ⟨#[0o354, 0o1240]⟩) := .start
  obtain ⟨t, ht, hends, -⟩ := testAndGo_decides (by decide) hrom hstart hi (.pointerDifferent 3)
  obtain rfl : t = true := ht.mpr (by decide)
  exact ⟨hends, hends.taken rfl 0o1240 rfl⟩

end Processor

end Calculator

/-
# Counting and negating in a field

Four operations make a number out of the one that a field holds: they count it up or down, or take it
from zero or from minus one.  The adder does all four, one as a sum and the others as differences, and
all but one with a carry to begin with.  A field of `n` digits keeps of the result what it is modulo
the `n`-th power of the base.  In the residues modulo that power each of the four is undone by one of
them, and so it is in the field (`unary_arithmetic`).
-/
import Calculator.Proofs.PointerFaults
import Calculator.Proofs.Positional

namespace Calculator

/-! ## 1. Four operations -/

/-- The operations that make a number out of one other. -/
inductive UnaryOp where
  | increment
  | decrement
  | negate
  | negateDecrement
  deriving DecidableEq, Repr

namespace UnaryOp

/-- The operation on a register. -/
def on (r : RegisterName) : UnaryOp → ArithmeticOp
  | increment => .increment r
  | decrement => .decrement r
  | negate => .negate r
  | negateDecrement => .negateDecrement r

/-- What the operation makes of a number where there is room for it. -/
def exact (v : ℤ) : UnaryOp → ℤ
  | increment => v + 1
  | decrement => v - 1
  | negate => -v
  | negateDecrement => -1 - v

/-- What it makes of a number below `m` where there is room for those only. -/
def result (m v : ℤ) : UnaryOp → ℤ
  | increment => (v + 1) % m
  | decrement => (v - 1) % m
  | negate => -v % m
  | negateDecrement => m - 1 - v

/-- Whether it leaves a carry there. -/
def Carries (m v : ℤ) : UnaryOp → Prop
  | increment => v = m - 1
  | decrement => v = 0
  | negate => v ≠ 0
  | negateDecrement => True

instance (m v : ℤ) : (op : UnaryOp) → Decidable (op.Carries m v)
  | increment => inferInstanceAs (Decidable (v = m - 1))
  | decrement => inferInstanceAs (Decidable (v = 0))
  | negate => inferInstanceAs (Decidable (v ≠ 0))
  | negateDecrement => .isTrue trivial

/-- The operation that undoes it. -/
def inverse : UnaryOp → UnaryOp
  | increment => decrement
  | decrement => increment
  | negate => negate
  | negateDecrement => negateDecrement

theorem exact_inverse_exact (op : UnaryOp) (v : ℤ) : op.inverse.exact (op.exact v) = v := by
  cases op <;> simp [inverse, exact]

/-- Residues are all that matters. -/
theorem exact_emod_emod (op : UnaryOp) (m v : ℤ) : op.exact (v % m) % m = op.exact v % m := by
  cases op with
  | increment => exact Int.emod_add_emod v m 1
  | decrement => exact Int.emod_sub_emod v m 1
  | negate =>
    have hneg := Int.sub_emod_emod 0 v m
    rwa [zero_sub, zero_sub] at hneg
  | negateDecrement => exact Int.sub_emod_emod (-1) v m

theorem result_eq (op : UnaryOp) {m v : ℤ} (hlow : 0 ≤ v) (hhigh : v < m) :
    op.result m v = op.exact v % m := by
  cases op with
  | increment | decrement | negate => rfl
  | negateDecrement =>
    have hwrap : m - 1 - v = -1 - v + m * 1 := by omega
    have hsmall : (m - 1 - v) % m = m - 1 - v := Int.emod_eq_of_lt (by omega) (by omega)
    rw [result, exact, ← hsmall, hwrap, Int.add_mul_emod_self_left]

/-- What a carry is worth: it was taken out of a sum, or put into a difference. -/
def weight : UnaryOp → ℤ
  | increment => -1
  | _ => 1

/-- A number that has room, together with a carry that makes up for what has none. -/
theorem result_and_carries (op : UnaryOp) {m v n c : ℤ} (hv : 0 ≤ v ∧ v < m) (hn : 0 ≤ n ∧ n < m)
    (hc : c = 0 ∨ c = 1) (h : n = op.exact v + m * (op.weight * c)) :
    n = op.result m v ∧ (c = 1 ↔ op.Carries m v) := by
  constructor
  · rw [op.result_eq hv.1 hv.2, ← Int.add_mul_emod_self_left _ m (op.weight * c), ← h]
    exact (Int.emod_eq_of_lt hn.1 hn.2).symm
  -- A carry is worth `m`, so there is one just where the exact number is not below `m` or is negative.
  · cases op <;> rcases hc with rfl | rfl <;>
      simp only [exact, weight, Carries, mul_one, mul_zero, mul_neg, true_iff, iff_true] at h ⊢ <;>
      omega

end UnaryOp

/-! ## 2. The adder -/

namespace Processor

variable {cpu : Processor} {s : Span} {r : RegisterName}

/-- Setting the carry beforehand makes no difference to what an operation may leave. -/
theorem Leaves.of_setCarry {after : Processor} {v : Bool} {dst : Option RegisterName}
    {law : ℤ → ℤ → Prop} (h : (cpu.setCarry v).Leaves after dst s law) :
    cpu.Leaves after dst s law where
  numeral := h.numeral
  value := h.value
  carry := h.carry
  outside := h.outside
  frame := ((cpu.changesOnly_setCarry v).mono (by simp)).trans h.frame

/-- The law of the adder for each of the four, with the operands and the carry that it starts from. -/
theorem leaves_unary (hs : s.Inside) (hc : cpu.flags.carry = false)
    (hr : (cpu.register r).Numeral cpu.base.radix s) (op : UnaryOp) :
    cpu.Leaves (cpu.applyArithmetic (op.on r) s) (some r) s fun n c =>
      n = op.exact ((cpu.register r).number cpu.base.radix s) +
        (cpu.base.radix : ℤ) ^ s.width * (op.weight * c) := by
  have hzero := Register.numeral_zero (Nat.lt_of_succ_lt cpu.base.radix_bounds.1) s
  have hnumber : (Register.zero.number cpu.base.radix s : ℤ) = 0 :=
    congrArg Nat.cast (Register.number_zero cpu.base.radix s)
  cases op with
  | increment =>
    have hsum : (cpu.setCarry true).Leaves (cpu.increment r s) (some r) s _ :=
      leaves_add hs (some r) hr hzero
    refine hsum.of_setCarry.imp fun n c h => ?_
    simp only [setCarry, operand, register, hnumber, Bool.toNat_true, Nat.cast_one] at h
    simp only [UnaryOp.exact, UnaryOp.weight, register]
    linear_combination h
  | decrement =>
    have hdifference : (cpu.setCarry true).Leaves (cpu.decrement r s) (some r) s _ :=
      leaves_subtract hs (some r) hr hzero
    refine hdifference.of_setCarry.imp fun n c h => ?_
    simp only [setCarry, operand, register, hnumber, Bool.toNat_true, Nat.cast_one] at h
    simp only [UnaryOp.exact, UnaryOp.weight, register]
    linear_combination h
  | negate =>
    have hdifference : cpu.Leaves (cpu.subtract (some r) none (some r) s) (some r) s _ :=
      leaves_subtract hs (some r) hzero hr
    refine hdifference.imp fun n c h => ?_
    simp only [operand, register, hnumber, hc, Bool.toNat_false, Nat.cast_zero] at h
    simp only [UnaryOp.exact, UnaryOp.weight, register]
    linear_combination h
  | negateDecrement =>
    have hdifference : (cpu.setCarry true).Leaves
        ((cpu.setCarry true).subtract (some r) none (some r) s) (some r) s _ :=
      leaves_subtract hs (some r) hzero hr
    refine hdifference.of_setCarry.imp fun n c h => ?_
    simp only [setCarry, operand, register, hnumber, Bool.toNat_true, Nat.cast_one] at h
    simp only [UnaryOp.exact, UnaryOp.weight, register]
    linear_combination h

/-- What the adder leaves is the residue, and a carry if that is not the result itself. -/
theorem applyArithmetic_unary (hs : s.Inside) (hc : cpu.flags.carry = false)
    (hr : (cpu.register r).Numeral cpu.base.radix s) (op : UnaryOp) :
    (((cpu.applyArithmetic (op.on r) s).register r).number cpu.base.radix s : ℤ) =
        op.result ((cpu.base.radix : ℤ) ^ s.width) ((cpu.register r).number cpu.base.radix s) ∧
      ((cpu.applyArithmetic (op.on r) s).flags.carry = true ↔
        op.Carries ((cpu.base.radix : ℤ) ^ s.width) ((cpu.register r).number cpu.base.radix s)) := by
  have hradix := cpu.base.radix_bounds.1
  have hleaves := leaves_unary hs hc hr op
  have hnumeral := hleaves.numeral r rfl
  have hlaw := hleaves.value r rfl
  generalize cpu.applyArithmetic (op.on r) s = after at hnumeral hlaw ⊢
  have hcarry : (after.flags.carry.toNat : ℤ) = 0 ∨ (after.flags.carry.toNat : ℤ) = 1 := by
    cases after.flags.carry
    · exact .inl rfl
    · exact .inr rfl
  have hflag : after.flags.carry = true ↔ (after.flags.carry.toNat : ℤ) = 1 := by
    cases after.flags.carry <;> decide
  rw [hflag]
  exact op.result_and_carries (hr.number_bounds hradix) (hnumeral.number_bounds hradix) hcarry hlaw

/-! ## 3. Ticks -/

/-- What a tick makes of the number in a span by one of the four operations, whatever the carries that
it finds. -/
structure AppliesUnary (cpu : Processor) (op : UnaryOp) (r : RegisterName) (s : Span) : Prop where
  fault : cpu.tick.fault = none
  numeral : (cpu.tick.cpu.register r).Numeral cpu.base.radix s
  number : ((cpu.tick.cpu.register r).number cpu.base.radix s : ℤ) =
    op.result ((cpu.base.radix : ℤ) ^ s.width) ((cpu.register r).number cpu.base.radix s)
  carry : cpu.tick.cpu.flags.carry = true ↔
    op.Carries ((cpu.base.radix : ℤ) ^ s.width) ((cpu.register r).number cpu.base.radix s)
  outside : ∀ i, i ∉ s.positions → (cpu.tick.cpu.register r).digit i = (cpu.register r).digit i
  frame : ChangesOnly (tickFootprint ++ [.register r]) cpu cpu.tick.cpu

/-- An operation that is no test is applied to the span, and that is all. -/
theorem run_arithmetic_of_isTest_eq_false {op : ArithmeticOp} {field : Field}
    (htest : op.isTest = false) (hspan : cpu.spanOf? field = .ok s) :
    (cpu.run (.arithmetic op field)).cpu = cpu.applyArithmetic op s ∧
      (cpu.run (.arithmetic op field)).fault = none := by
  simp only [run, runArithmetic, hspan, htest]
  exact ⟨rfl, rfl⟩

theorem Executes.appliesUnary {word : Nat} {op : UnaryOp} {field : Field}
    (h : cpu.Executes word (.arithmetic (op.on r) field)) (hspan : cpu.spanOf? field = .ok s)
    (hr : (cpu.register r).Numeral cpu.base.radix s) : cpu.AppliesUnary op r s := by
  have hregister : cpu.ready.register r = cpu.register r :=
    cpu.changesOnly_ready (.register r) (by simp)
  have hbase : cpu.ready.base = cpu.base := cpu.changesOnly_ready .base (by simp)
  have hstart : (cpu.ready.register r).Numeral cpu.ready.base.radix s := by rwa [hregister, hbase]
  have hleaves := leaves_unary (spanOf?_bounds hspan) cpu.ready_carry hstart op
  obtain ⟨hnumber, hcarry⟩ :=
    applyArithmetic_unary (spanOf?_bounds hspan) cpu.ready_carry hstart op
  have hno : (op.on r).isTest = false := by cases op <;> rfl
  obtain ⟨hcpu, hfault⟩ := run_arithmetic_of_isTest_eq_false hno (spanOf?_ready hspan)
  rw [← hcpu] at hleaves hnumber hcarry
  obtain ⟨htick, htickfault⟩ := h.tick_eq
  have hafter : cpu.tick.cpu.register r =
      (cpu.ready.run (.arithmetic (op.on r) field)).cpu.register r := by
    rw [htick]
    rfl
  have hnumeral := hleaves.numeral r rfl
  have houtside := hleaves.outside r rfl
  rw [← hafter, hbase] at hnumeral
  rw [← hafter, hregister] at houtside
  rw [← hafter, hbase, hregister] at hnumber
  rw [hbase, hregister] at hcarry
  refine ⟨htickfault.trans hfault, hnumeral, hnumber, ?_, houtside, ?_⟩
  · rw [htick]
    exact hcarry
  · exact (h.tick_changesOnly hleaves.frame).mono (by simp [tickFootprint])

/-- What the inverse operation makes of the result is what there was before. -/
theorem AppliesUnary.undo {op : UnaryOp} (h : cpu.AppliesUnary op r s)
    (h' : cpu.tick.cpu.AppliesUnary op.inverse r s) (hr : (cpu.register r).Numeral cpu.base.radix s) :
    cpu.tick.cpu.tick.cpu.register r = cpu.register r := by
  have hradix : 1 < cpu.base.radix := cpu.base.radix_bounds.1
  have hbase : cpu.tick.cpu.base = cpu.base := h.frame .base (by simp [tickFootprint])
  have hnumeral := h'.numeral
  have hnumber := h'.number
  rw [hbase] at hnumeral hnumber
  obtain ⟨hlow, hhigh⟩ := hr.number_bounds hradix
  obtain ⟨hlow', hhigh'⟩ := h.numeral.number_bounds hradix
  have hback : ((cpu.tick.cpu.tick.cpu.register r).number cpu.base.radix s : ℤ) =
      (cpu.register r).number cpu.base.radix s := by
    rw [hnumber, UnaryOp.result_eq _ hlow' hhigh', h.number, UnaryOp.result_eq _ hlow hhigh,
      UnaryOp.exact_emod_emod, UnaryOp.exact_inverse_exact]
    exact Int.emod_eq_of_lt hlow hhigh
  have hslice := hnumeral.slice_eq hr hradix (by exact_mod_cast hback)
  exact Register.ext_slice hslice fun i hi => (h'.outside i hi).trans (h.outside i hi)

/-- **Counting and negating are arithmetic modulo a power of the base.**  A tick that counts the number
in a field up or down, or takes it from zero or from minus one, leaves what the result is modulo the
power of the base above the field, and a carry if that is not the result itself, whatever the carries
before it.  If the next tick executes the operation that undoes it on the same field, the register is
what it was. -/
theorem unary_arithmetic {word : Nat} {op : UnaryOp} {field : Field}
    (h : cpu.Executes word (.arithmetic (op.on r) field)) (hspan : cpu.spanOf? field = .ok s)
    (hr : (cpu.register r).Numeral cpu.base.radix s) :
    cpu.AppliesUnary op r s ∧
      ∀ word', cpu.tick.cpu.Executes word' (.arithmetic (op.inverse.on r) field) →
        cpu.tick.cpu.AppliesUnary op.inverse r s ∧
          cpu.tick.cpu.tick.cpu.register r = cpu.register r := by
  have hfirst := h.appliesUnary hspan hr
  refine ⟨hfirst, fun word' h' => ?_⟩
  have hagain : cpu.tick.cpu.spanOf? field = .ok s :=
    spanOf?_congr (hfirst.frame .p (by simp [tickFootprint]))
      (hfirst.frame .q (by simp [tickFootprint])) (hfirst.frame .active (by simp [tickFootprint])) hspan
  have hbase : cpu.tick.cpu.base = cpu.base := hfirst.frame .base (by simp [tickFootprint])
  have hsecond := h'.appliesUnary hagain (hbase ▸ hfirst.numeral)
  exact ⟨hsecond, hfirst.undo hsecond hr⟩

/-- Three taken from zero, and the rest taken from zero again. -/
theorem unary_arithmetic_negate_twice :
    let cpu := (new .hp21 ⟨#[0o1232, 0o1232]⟩).setRegister .c (Register.zero.put 0 3)
    cpu.Executes 0o1232 (.arithmetic (.negate .c) .word) ∧
      ((cpu.tick.cpu.register .c).number 10 .word : ℤ) = -3 % 10 ^ 14 ∧
      cpu.tick.cpu.flags.carry = true ∧
      cpu.tick.cpu.tick.cpu.register .c = Register.zero.put 0 3 := by
  have h : ((new .hp21 ⟨#[0o1232, 0o1232]⟩).setRegister .c (Register.zero.put 0 3)).Executes 0o1232
      (.arithmetic (UnaryOp.negate.on .c) .word) := ⟨rfl, rfl, rfl⟩
  obtain ⟨hfirst, hback⟩ := unary_arithmetic h rfl (by decide)
  exact ⟨h, hfirst.number, hfirst.carry.mpr (by decide), (hback 0o1232 ⟨rfl, rfl, rfl⟩).2⟩

end Processor

end Calculator

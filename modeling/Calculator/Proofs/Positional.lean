/-
# Numbers in a span

In a base the digits of a span stand for a number, the least significant digit first
(`Register.number`).  The adder sees no numbers, only digits and a carry.  Yet what it makes of two
operands whose digits belong to the base is their sum or their difference, and the carry is what the
span has no room for: it is worth the power of the base above the span (`serial_arithmetic`).

A sum and a difference part only in a sign, so one induction along the operands serves for both.
-/
import Mathlib.Data.Nat.Digits.Defs
import Mathlib.Tactic.LinearCombination
import Calculator.Proofs.Footprint
import Calculator.Proofs.Sweep

namespace Calculator

/-! ## 1. Along two operands -/

namespace Serial

/-- A one-digit operation computes in a base: of digits of the base it makes one more, and its carry
is worth the base.  The sign tells whether the second operand and the carry are added or taken
away. -/
structure Computes (radix : Nat) (sign : ℤ) (digit : Nat → Nat → Bool → Nat × Bool) : Prop where
  lt : ∀ {x y} carry, x < radix → y < radix → (digit x y carry).1 < radix
  value : ∀ {x y} carry, x < radix → y < radix →
    ((digit x y carry).1 : ℤ) = x + sign * (y + carry.toNat - radix * (digit x y carry).2.toNat)

variable {radix : Nat} {sign : ℤ} {digit : Nat → Nat → Bool → Nat × Bool} {xs ys : List Nat}

/-- A sum of two digits and a carry is less than twice the base, so taking the base off once is
enough, and the four bits that are kept lose nothing. -/
theorem computes_addDigit (hradix : radix ≤ 16) : Computes radix 1 (addDigit radix) := by
  constructor
  · intro x y carry hx hy
    have hcarry := carry.toNat_le
    unfold addDigit
    dsimp only
    split <;> (dsimp only; omega)
  · intro x y carry hx hy
    have hcarry := carry.toNat_le
    unfold addDigit
    dsimp only
    split <;> (simp only [Bool.toNat_true, Bool.toNat_false]; omega)

theorem computes_subtractDigit (hradix : radix ≤ 16) : Computes radix (-1) (subtractDigit radix) := by
  constructor
  · intro x y borrow hx hy
    have hborrow := borrow.toNat_le
    unfold subtractDigit
    dsimp only
    split <;> (dsimp only; omega)
  · intro x y borrow hx hy
    have hborrow := borrow.toNat_le
    unfold subtractDigit
    dsimp only
    split <;> (simp only [Bool.toNat_true, Bool.toNat_false]; omega)

theorem Computes.along_lt (h : Computes radix sign digit) (carry : Bool) (hx : ∀ d ∈ xs, d < radix)
    (hy : ∀ d ∈ ys, d < radix) : ∀ d ∈ (along digit carry xs ys).1, d < radix := by
  induction xs generalizing carry ys with
  | nil => simp [along]
  | cons x xs ih =>
    cases ys with
    | nil => simp [along]
    | cons y ys =>
      obtain ⟨hx₀, hx⟩ := List.forall_mem_cons.mp hx
      obtain ⟨hy₀, hy⟩ := List.forall_mem_cons.mp hy
      exact List.forall_mem_cons.mpr ⟨h.lt carry hx₀ hy₀, ih _ hx hy⟩

/-- **What is computed digit by digit is computed as a whole.**  The induction is along the operands,
and the carry out of a position is the carry into the rest. -/
theorem Computes.along_value (h : Computes radix sign digit) (carry : Bool)
    (hlength : xs.length = ys.length) (hx : ∀ d ∈ xs, d < radix) (hy : ∀ d ∈ ys, d < radix) :
    ((Nat.ofDigits radix (along digit carry xs ys).1 : Nat) : ℤ) =
      Nat.ofDigits radix xs + sign * (Nat.ofDigits radix ys + carry.toNat -
        (radix : ℤ) ^ xs.length * (along digit carry xs ys).2.toNat) := by
  induction xs generalizing carry ys with
  | nil =>
    obtain rfl : ys = [] := List.eq_nil_of_length_eq_zero hlength.symm
    simp [along]
  | cons x xs ih =>
    cases ys with
    | nil => cases hlength
    | cons y ys =>
      obtain ⟨hx₀, hx⟩ := List.forall_mem_cons.mp hx
      obtain ⟨hy₀, hy⟩ := List.forall_mem_cons.mp hy
      have hdigit := h.value carry hx₀ hy₀
      have hrest := ih (digit x y carry).2 (Nat.succ.inj hlength) hx hy
      simp only [along, Nat.ofDigits_cons, List.length_cons, Nat.cast_add, Nat.cast_mul]
      linear_combination hdigit + (radix : ℤ) * hrest

end Serial

/-! ## 2. Registers -/

namespace Register

/-- The number that the digits of a span stand for in a base. -/
def number (r : Register) (radix : Nat) (s : Span) : Nat := Nat.ofDigits radix (r.slice s)

/-- Every digit of the span is a digit of the base. -/
def Numeral (r : Register) (radix : Nat) (s : Span) : Prop := ∀ i ∈ s.positions, r.digit i < radix

instance (r : Register) (radix : Nat) (s : Span) : Decidable (r.Numeral radix s) :=
  inferInstanceAs (Decidable (∀ i ∈ s.positions, r.digit i < radix))

variable {r r' : Register} {radix : Nat} {s : Span}

theorem numeral_iff : r.Numeral radix s ↔ ∀ d ∈ r.slice s, d < radix :=
  (List.forall_mem_map (P := (· < radix))).symm

theorem numeral_zero (h : 0 < radix) (s : Span) : zero.Numeral radix s := by
  intro i _
  rwa [digit_zero]

theorem number_zero (radix : Nat) (s : Span) : zero.number radix s = 0 := by
  have hzeros : zero.slice s = List.replicate s.width 0 :=
    List.eq_replicate_iff.mpr ⟨length_slice _ _, by simp [slice]⟩
  rw [number, hzeros, Nat.ofDigits_replicate_zero]

theorem Numeral.number_lt (h : r.Numeral radix s) (hradix : 1 < radix) :
    r.number radix s < radix ^ s.width := by
  rw [← length_slice r s]
  exact Nat.ofDigits_lt_base_pow_length hradix (numeral_iff.mp h)

theorem Numeral.number_bounds (h : r.Numeral radix s) (hradix : 1 < radix) :
    0 ≤ (r.number radix s : ℤ) ∧ (r.number radix s : ℤ) < (radix : ℤ) ^ s.width :=
  ⟨Int.natCast_nonneg _, by exact_mod_cast h.number_lt hradix⟩

/-- A numeral of the span is what is left of a number that it makes up together with the power of the
base above the span. -/
theorem Numeral.emod_number (h : r.Numeral radix s) (hradix : 1 < radix) {n k : ℤ}
    (hn : (r.number radix s : ℤ) = n + (radix : ℤ) ^ s.width * k) :
    n % (radix : ℤ) ^ s.width = r.number radix s := by
  obtain ⟨hlow, hhigh⟩ := h.number_bounds hradix
  rw [← Int.add_mul_emod_self_left n _ k, ← hn]
  exact Int.emod_eq_of_lt hlow hhigh

/-- Numerals that differ by a multiple of that power do not differ at all. -/
theorem Numeral.number_eq (h : r.Numeral radix s) (h' : r'.Numeral radix s) (hradix : 1 < radix) {k : ℤ}
    (hn : (r.number radix s : ℤ) = r'.number radix s + (radix : ℤ) ^ s.width * k) :
    r.number radix s = r'.number radix s := by
  have hself : (r'.number radix s : ℤ) % (radix : ℤ) ^ s.width = r'.number radix s :=
    h'.emod_number hradix (k := 0) (by simp)
  exact_mod_cast (h.emod_number hradix hn).symm.trans hself

/-- A numeral is known by the number it stands for. -/
theorem Numeral.slice_eq (h : r.Numeral radix s) (h' : r'.Numeral radix s) (hradix : 1 < radix)
    (hvalue : r.number radix s = r'.number radix s) : r.slice s = r'.slice s :=
  Nat.ofDigits_inj_of_len_eq hradix (by simp) (numeral_iff.mp h) (numeral_iff.mp h') hvalue

/-- A register is known by a slice of it and by the digits elsewhere. -/
theorem ext_slice (hslice : r.slice s = r'.slice s)
    (houtside : ∀ i, i ∉ s.positions → r.digit i = r'.digit i) : r = r' := by
  refine ext_digit fun i _ => ?_
  by_cases hi : i ∈ s.positions
  · exact List.map_inj_left.mp hslice i hi
  · exact houtside i hi

theorem mem_positions {i : Nat} : i ∈ s.positions ↔ s.first ≤ i ∧ i ≤ s.last := by
  rw [Span.positions, Span.width, List.mem_range'_1]
  omega

theorem digit_splice_of_not_mem (r : Register) (ds : List Nat) {i : Nat} (h : i ∉ s.positions) :
    (r.splice s ds).digit i = r.digit i := by
  rcases Nat.lt_or_ge i 14 with hi | hi
  · rw [digit_splice r s ds hi, if_neg fun hin => h (mem_positions.mpr hin)]
  · rw [digit_of_le _ hi, digit_of_le _ hi]

end Register

/-! ## 3. The adder -/

theorem Base.radix_bounds (b : Base) : 1 < b.radix ∧ b.radix ≤ 16 := by
  cases b <;> decide

namespace Processor

variable {cpu : Processor} {s : Span} {dst : Option RegisterName} {law : ℤ → ℤ → Prop}

/-- What an operation of the adder leaves: a numeral in the destination, if there is one, and a carry,
of which the law tells how they go together.  Nothing else is changed. -/
structure Leaves (cpu after : Processor) (dst : Option RegisterName) (s : Span)
    (law : ℤ → ℤ → Prop) : Prop where
  numeral : ∀ r, dst = some r → (after.register r).Numeral cpu.base.radix s
  value : ∀ r, dst = some r →
    law ((after.register r).number cpu.base.radix s) after.flags.carry.toNat
  /-- The carry is that of a result within the span, whether it is kept or not. -/
  carry : ∃ n : Nat, n < cpu.base.radix ^ s.width ∧ law n after.flags.carry.toNat
  outside : ∀ r, dst = some r → ∀ i, i ∉ s.positions →
    (after.register r).digit i = (cpu.register r).digit i
  frame : ChangesOnly (.carry :: dst.toList.map .register) cpu after

theorem Leaves.imp {after : Processor} {law' : ℤ → ℤ → Prop} (h : cpu.Leaves after dst s law)
    (himp : ∀ n c, law n c → law' n c) : cpu.Leaves after dst s law' where
  numeral := h.numeral
  value := fun r hr => himp _ _ (h.value r hr)
  carry := h.carry.imp fun _ hn => ⟨hn.1, himp _ _ hn.2⟩
  outside := h.outside
  frame := h.frame

theorem leaves_takeResult (hs : s.Inside) {result : List Nat × Bool}
    (hlength : result.1.length = s.width) (hlt : ∀ d ∈ result.1, d < cpu.base.radix)
    (hlaw : law (Nat.ofDigits cpu.base.radix result.1 : Nat) result.2.toNat) :
    cpu.Leaves (cpu.takeResult dst s result) dst s law := by
  have hcarry : ∃ n : Nat, n < cpu.base.radix ^ s.width ∧ law n result.2.toNat := by
    refine ⟨_, ?_, hlaw⟩
    rw [← hlength]
    exact Nat.ofDigits_lt_base_pow_length cpu.base.radix_bounds.1 hlt
  cases dst with
  | none =>
    exact ⟨nofun, nofun, hcarry, nofun, cpu.changesOnly_setCarry _⟩
  | some r =>
    have hregister : (cpu.takeResult (some r) s result).register r
        = (cpu.register r).splice s result.1 :=
      (cpu.register_setRegister r r _).trans (if_pos rfl)
    have hslice : ((cpu.takeResult (some r) s result).register r).slice s = result.1 := by
      rw [hregister]
      exact Register.slice_splice _ hs.2 hlength
    refine ⟨?_, ?_, hcarry, ?_, ?_⟩
    · rintro _ ⟨⟩
      rw [Register.numeral_iff, hslice]
      exact hlt
    · rintro _ ⟨⟩
      rw [Register.number, hslice]
      exact hlaw
    · rintro _ ⟨⟩ i hi
      rw [hregister]
      exact Register.digit_splice_of_not_mem _ _ hi
    · exact (cpu.changesOnly_takeResult r s result).mono (by simp)

/-- **The adder computes with the numbers of its operands.** -/
theorem leaves_along {sign : ℤ} {digit : Nat → Nat → Bool → Nat × Bool}
    (hdigit : Serial.Computes cpu.base.radix sign digit) (hs : s.Inside) {x y : Register}
    (hx : x.Numeral cpu.base.radix s) (hy : y.Numeral cpu.base.radix s) :
    cpu.Leaves (cpu.takeResult dst s (Serial.along digit cpu.flags.carry (x.slice s) (y.slice s)))
      dst s fun n c => n = x.number cpu.base.radix s + sign *
        (y.number cpu.base.radix s + cpu.flags.carry.toNat - (cpu.base.radix : ℤ) ^ s.width * c) := by
  have hlength : (x.slice s).length = (y.slice s).length := by simp
  have hx := Register.numeral_iff.mp hx
  have hy := Register.numeral_iff.mp hy
  refine leaves_takeResult hs ?_ (hdigit.along_lt _ hx hy) ?_
  · rw [Serial.length_along _ _ hlength, Register.length_slice]
  · rw [← Register.length_slice x s]
    exact hdigit.along_value _ hlength hx hy

theorem leaves_add (hs : s.Inside) (dst : Option RegisterName) {src : RegisterName}
    {arg : Option RegisterName} (hsrc : (cpu.register src).Numeral cpu.base.radix s)
    (harg : (cpu.operand arg).Numeral cpu.base.radix s) :
    cpu.Leaves (cpu.add dst src arg s) dst s fun n c =>
      n + (cpu.base.radix : ℤ) ^ s.width * c =
        (cpu.register src).number cpu.base.radix s + (cpu.operand arg).number cpu.base.radix s
          + cpu.flags.carry.toNat := by
  have hdigit := Serial.computes_addDigit cpu.base.radix_bounds.2
  refine (leaves_along hdigit hs hsrc harg).imp ?_
  intro n c hlaw
  omega

theorem leaves_subtract (hs : s.Inside) (dst : Option RegisterName) {src arg : Option RegisterName}
    (hsrc : (cpu.operand src).Numeral cpu.base.radix s)
    (harg : (cpu.operand arg).Numeral cpu.base.radix s) :
    cpu.Leaves (cpu.subtract dst src arg s) dst s fun n c =>
      n = (cpu.operand src).number cpu.base.radix s - (cpu.operand arg).number cpu.base.radix s
        - cpu.flags.carry.toNat + (cpu.base.radix : ℤ) ^ s.width * c := by
  have hdigit := Serial.computes_subtractDigit cpu.base.radix_bounds.2
  refine (leaves_along hdigit hs hsrc harg).imp ?_
  intro n c hlaw
  omega

/-! ## 4. There and back -/

theorem operand_some (cpu : Processor) (r : RegisterName) : cpu.operand (some r) = cpu.register r :=
  rfl

theorem operand_setCarry (cpu : Processor) (v : Bool) (o : Option RegisterName) :
    (cpu.setCarry v).operand o = cpu.operand o := by
  cases o <;> rfl

theorem operand_of_changesOnly {cs : List Component} {cpu' : Processor} (h : ChangesOnly cs cpu cpu')
    {o : Option RegisterName} (hno : ∀ r, o = some r → .register r ∉ cs) :
    cpu'.operand o = cpu.operand o := by
  cases o with
  | none => rfl
  | some r => exact h (.register r) (hno r rfl)

/-- A difference gives back what a sum was made from, if it starts from the digits of the sum and from
the same carry, and takes away what reads like the argument of the sum. -/
theorem subtract_register_eq {sum : Processor} (hs : s.Inside) (hbase : sum.base = cpu.base)
    (hcarry : sum.flags.carry = cpu.flags.carry) {r : RegisterName} {arg : Option RegisterName}
    {x : Register} {overflow : ℤ} (hr : (cpu.register r).Numeral cpu.base.radix s)
    (hx : x.Numeral cpu.base.radix s) (hread : (sum.operand arg).slice s = x.slice s)
    (hnumeral : (sum.register r).Numeral cpu.base.radix s)
    (hvalue : (sum.register r).number cpu.base.radix s + (cpu.base.radix : ℤ) ^ s.width * overflow =
      (cpu.register r).number cpu.base.radix s + x.number cpu.base.radix s + cpu.flags.carry.toNat)
    (houtside : ∀ i, i ∉ s.positions → (sum.register r).digit i = (cpu.register r).digit i) :
    (sum.subtract (some r) (some r) arg s).register r = cpu.register r := by
  have hargument : (sum.operand arg).Numeral cpu.base.radix s := by
    rw [Register.numeral_iff, hread]
    exact Register.numeral_iff.mp hx
  have hsource : (sum.operand (some r)).Numeral sum.base.radix s := hbase ▸ hnumeral
  have hdifference := leaves_subtract hs (some r) hsource (hbase ▸ hargument)
  have hresult := hdifference.numeral r rfl
  have hlaw := hdifference.value r rfl
  have hsame : (sum.operand arg).number cpu.base.radix s = x.number cpu.base.radix s :=
    congrArg (Nat.ofDigits cpu.base.radix) hread
  rw [hbase] at hresult hlaw
  rw [operand_some, hsame, hcarry] at hlaw
  have hwrap : (((sum.subtract (some r) (some r) arg s).register r).number cpu.base.radix s : ℤ)
      = (cpu.register r).number cpu.base.radix s + (cpu.base.radix : ℤ) ^ s.width *
        ((sum.subtract (some r) (some r) arg s).flags.carry.toNat - overflow) := by
    linear_combination hlaw + hvalue
  have hequal := hresult.number_eq hr cpu.base.radix_bounds.1 hwrap
  refine Register.ext_slice (hresult.slice_eq hr cpu.base.radix_bounds.1 hequal) fun i hi => ?_
  exact (hdifference.outside r rfl i hi).trans (houtside i hi)

/-- Adds an operand to a register, and takes one away from it with the carry that there was before the
addition. -/
def addAndTake (cpu : Processor) (r : RegisterName) (arg arg' : Option RegisterName) (s : Span) :
    Processor :=
  ((cpu.add (some r) r arg s).setCarry cpu.flags.carry).subtract (some r) (some r) arg' s

theorem addAndTake_changesOnly (hs : s.Inside) {r : RegisterName} {arg arg' : Option RegisterName}
    (hr : (cpu.register r).Numeral cpu.base.radix s)
    (harg : (cpu.operand arg).Numeral cpu.base.radix s)
    (hread : ((cpu.add (some r) r arg s).operand arg').slice s = (cpu.operand arg).slice s) :
    ChangesOnly [.carry] cpu (cpu.addAndTake r arg arg' s) := by
  have hsum := leaves_add hs (some r) hr harg
  unfold addAndTake
  generalize cpu.add (some r) r arg s = sum at hsum hread ⊢
  have hback : ((sum.setCarry cpu.flags.carry).subtract (some r) (some r) arg' s).register r
      = cpu.register r := by
    have hbase : (sum.setCarry cpu.flags.carry).base = cpu.base := hsum.frame .base (by simp)
    have hargument : ((sum.setCarry cpu.flags.carry).operand arg').slice s
        = (cpu.operand arg).slice s := by
      rwa [operand_setCarry]
    have hnumeral : ((sum.setCarry cpu.flags.carry).register r).Numeral cpu.base.radix s :=
      hsum.numeral r rfl
    have houtside : ∀ i, i ∉ s.positions →
        ((sum.setCarry cpu.flags.carry).register r).digit i = (cpu.register r).digit i :=
      hsum.outside r rfl
    have hvalue := hsum.value r rfl
    exact subtract_register_eq hs hbase rfl hr harg hargument hnumeral hvalue houtside
  have hframe : ChangesOnly [.carry, .register r] cpu
      ((sum.setCarry cpu.flags.carry).subtract (some r) (some r) arg' s) :=
    (hsum.frame.trans ((changesOnly_setCarry _ _).mono (by simp))).trans
      ((changesOnly_takeResult _ r s _).mono (by simp))
  intro c hc
  by_cases heq : c = .register r
  · rw [heq]
    exact hback
  · exact hframe c (by simpa [heq] using hc)

/-- **Serial arithmetic is the arithmetic of numbers.**  In either base and over any span, whichever
registers are source, argument and destination, a sum and a difference of numerals are what they
are for the numbers that the digits stand for.  What is added to a register and taken away again,
with the same carry at the start, leaves it as it was, provided that the argument still reads the
same; and so it does, unless it is itself the register that was added to. -/
theorem serial_arithmetic (cpu : Processor) {s : Span} (hs : s.Inside) :
    (∀ dst src arg, (cpu.register src).Numeral cpu.base.radix s →
      (cpu.operand arg).Numeral cpu.base.radix s →
      cpu.Leaves (cpu.add dst src arg s) dst s fun n c =>
        n + (cpu.base.radix : ℤ) ^ s.width * c =
          (cpu.register src).number cpu.base.radix s + (cpu.operand arg).number cpu.base.radix s
            + cpu.flags.carry.toNat) ∧
    (∀ dst src arg, (cpu.operand src).Numeral cpu.base.radix s →
      (cpu.operand arg).Numeral cpu.base.radix s →
      cpu.Leaves (cpu.subtract dst src arg s) dst s fun n c =>
        n = (cpu.operand src).number cpu.base.radix s - (cpu.operand arg).number cpu.base.radix s
          - cpu.flags.carry.toNat + (cpu.base.radix : ℤ) ^ s.width * c) ∧
    (∀ r arg, (cpu.register r).Numeral cpu.base.radix s →
      (cpu.operand arg).Numeral cpu.base.radix s →
      (∀ arg', ((cpu.add (some r) r arg s).operand arg').slice s = (cpu.operand arg).slice s →
        ChangesOnly [.carry] cpu (cpu.addAndTake r arg arg' s)) ∧
      (arg ≠ some r → ChangesOnly [.carry] cpu (cpu.addAndTake r arg arg s))) := by
  refine ⟨fun dst src arg => leaves_add hs dst, fun dst src arg => leaves_subtract hs dst, ?_⟩
  intro r arg hr harg
  refine ⟨fun arg' => addAndTake_changesOnly hs hr harg, fun hne => ?_⟩
  refine addAndTake_changesOnly hs hr harg (congrArg (Register.slice · s) ?_)
  refine operand_of_changesOnly (leaves_add hs (some r) hr harg).frame ?_
  rintro _ rfl
  simpa using hne

/-- Ninety-nine and one, which leave a span of two digits with nothing but a carry, and one taken away
again. -/
theorem serial_arithmetic_wraps :
    let cpu := ((new .hp21 (.blank 1)).setRegister .a (Register.zero.splice ⟨0, 1⟩ [9, 9])).setRegister
      .c (Register.zero.put 0 1)
    let sum := cpu.add (some .a) .a (some .c) ⟨0, 1⟩
    (sum.register .a).slice ⟨0, 1⟩ = [0, 0] ∧ sum.flags.carry = true ∧
      ((sum.register .a).number 10 ⟨0, 1⟩ : ℤ) + 10 ^ 2 * 1 = 99 + 1 + 0 ∧
      ChangesOnly [.carry] cpu (cpu.addAndTake .a (some .c) (some .c) ⟨0, 1⟩) := by
  have hinside : Span.Inside ⟨0, 1⟩ := by decide
  obtain ⟨hadd, -, hback⟩ := serial_arithmetic
    (((new .hp21 (.blank 1)).setRegister .a (Register.zero.splice ⟨0, 1⟩ [9, 9])).setRegister
      .c (Register.zero.put 0 1)) hinside
  refine ⟨by decide, by decide, ?_, ?_⟩
  · exact (hadd (some .a) .a (some .c) (by decide) (by decide)).value .a rfl
  · exact (hback .a (some .c) (by decide) (by decide)).2 (by decide)

/-- A register that is added to itself does not come back: the difference finds the sum in the argument
too, and takes it from itself. -/
theorem not_addAndTake_restores :
    ¬∀ (cpu : Processor) (s : Span) (r : RegisterName) (arg : Option RegisterName), s.Inside →
      (cpu.register r).Numeral cpu.base.radix s → (cpu.operand arg).Numeral cpu.base.radix s →
      (cpu.addAndTake r arg arg s).register r = cpu.register r := by
  intro h
  have hlost := h ((new .hp21 (.blank 1)).increment .a ⟨0, 0⟩) ⟨0, 0⟩ .a (some .a) (by decide)
    (by decide) (by decide)
  exact absurd hlost (by decide)

end Processor

end Calculator

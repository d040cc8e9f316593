/-
# Rotations

Down by `n` places is `n` times down by one.  The digit that ends up at a position is the one that
stood `n` places above it, counted round the fourteen digits, so only the remainder of `n` by
fourteen matters to the register, and as many places up lead back.  The carries know no more than
whether there was anything to do at all (`rotations_act`).
-/
import Mathlib.Logic.Function.Iterate
import Calculator.Proofs.Footprint

namespace Calculator

/-! ## 1. Registers -/

namespace Register

variable {i : Nat}

theorem digit_rotateDown (x : Register) (hi : i < 14) :
    x.rotateDown.digit i = x.digit ((i + 1) % 14) := by
  rw [digit_of_lt _ hi, rotateDown, Vector.getElem_ofFn]

theorem digit_rotateUp (x : Register) (hi : i < 14) :
    x.rotateUp.digit i = x.digit ((i + 13) % 14) := by
  rw [digit_of_lt _ hi, rotateUp, Vector.getElem_ofFn]

theorem rotateUp_rotateDown : Function.LeftInverse rotateUp rotateDown := by
  intro x
  refine ext_digit fun i hi => ?_
  have hback : ((i + 13) % 14 + 1) % 14 = i := by omega
  rw [digit_rotateUp _ hi, digit_rotateDown _ (Nat.mod_lt _ (by decide)), hback]

/-- Each place further down, the digit comes from one place further up. -/
theorem digit_iterate_rotateDown (x : Register) (n : Nat) (hi : i < 14) :
    (rotateDown^[n] x).digit i = x.digit ((i + n) % 14) := by
  induction n generalizing x with
  | zero => rw [Function.iterate_zero, id, Nat.add_zero, Nat.mod_eq_of_lt hi]
  | succ n ih =>
    have hround : ((i + n) % 14 + 1) % 14 = (i + (n + 1)) % 14 := by omega
    rw [Function.iterate_succ_apply, ih, digit_rotateDown _ (Nat.mod_lt _ (by decide)), hround]

/-- Fourteen places make a full turn. -/
theorem iterate_rotateDown_mul (x : Register) (k : Nat) : rotateDown^[14 * k] x = x := by
  refine ext_digit fun i hi => ?_
  have hround : (i + 14 * k) % 14 = i := by omega
  rw [digit_iterate_rotateDown _ _ hi, hround]

end Register

namespace Processor

/-! ## 2. Down -/

/-- A processor with a register turned down by `n` places. -/
structure Turned (cpu after : Processor) (r : RegisterName) (n : Nat) : Prop where
  digit : ∀ i < 14, (after.register r).digit i = (cpu.register r).digit ((i + n) % 14)
  /-- Both carries are cleared, unless there was nothing to do. -/
  flags : after.flags =
    if n = 0 then cpu.flags else { cpu.flags with carry := false, prevCarry := false }
  /-- Whatever is not named here is left alone. -/
  frame : ChangesOnly [.register r, .carry, .prevCarry] cpu after

theorem register_rotateRight (cpu : Processor) (r : RegisterName) (n : Nat) :
    (cpu.rotateRight r n).register r = Register.rotateDown^[n] (cpu.register r) := by
  induction n generalizing cpu with
  | zero => rfl
  | succ n ih =>
    have hstep : (cpu.setRegister r (cpu.register r).rotateDown).clearCarries.register r =
        (cpu.register r).rotateDown :=
      (cpu.register_setRegister r r _).trans (if_pos rfl)
    rw [rotateRight, ih, hstep, Function.iterate_succ_apply]

theorem flags_rotateRight (cpu : Processor) (r : RegisterName) (n : Nat) :
    (cpu.rotateRight r n).flags =
      if n = 0 then cpu.flags else { cpu.flags with carry := false, prevCarry := false } := by
  induction n generalizing cpu with
  | zero => rfl
  | succ n ih =>
    rw [rotateRight, ih, if_neg n.succ_ne_zero]
    -- the first turn has cleared the carries, and clearing them again changes nothing
    split
    · rfl
    · rfl

theorem turned_rotateRight (cpu : Processor) (r : RegisterName) (n : Nat) :
    cpu.Turned (cpu.rotateRight r n) r n where
  digit := by
    intro i hi
    rw [register_rotateRight, Register.digit_iterate_rotateDown _ n hi]
  flags := cpu.flags_rotateRight r n
  frame := cpu.changesOnly_rotateRight r n

theorem rotateRight_rotateRight (cpu : Processor) (r : RegisterName) (n m : Nat) :
    (cpu.rotateRight r n).rotateRight r m = cpu.rotateRight r (n + m) := by
  induction n generalizing cpu with
  | zero => rw [Nat.zero_add, rotateRight]
  | succ n ih => rw [rotateRight, ih, Nat.succ_add, rotateRight]

/-! ## 3. Up again -/

/-- A register that gets back what it had. -/
theorem setRegister_setRegister_register (cpu : Processor) (r : RegisterName) (x : Register) :
    (cpu.setRegister r x).setRegister r (cpu.register r) = cpu := by
  cases r <;> rfl

/-- One place down and one place up, only the carries are not what they were. -/
theorem rotateLeft_rotateRight_one (cpu : Processor) (r : RegisterName) :
    (cpu.rotateRight r 1).rotateLeft r = cpu.clearCarries := by
  have hback : ((cpu.rotateRight r 1).register r).rotateUp = cpu.register r := by
    rw [register_rotateRight]
    exact Register.rotateUp_rotateDown _
  rw [rotateLeft, hback]
  show ((cpu.setRegister r _).setRegister r (cpu.register r)).clearCarries = _
  rw [setRegister_setRegister_register]

/-- The last place up undoes the first place down, and in between the others cancel. -/
theorem iterate_rotateLeft_rotateRight (cpu : Processor) (r : RegisterName) (n : Nat) :
    (rotateLeft · r)^[n] (cpu.rotateRight r n) = if n = 0 then cpu else cpu.clearCarries := by
  induction n generalizing cpu with
  | zero => rfl
  | succ n ih =>
    have hfirst : cpu.rotateRight r (n + 1) = (cpu.rotateRight r 1).rotateRight r n := rfl
    have hclear : (if n = 0 then cpu.rotateRight r 1 else (cpu.rotateRight r 1).clearCarries) =
        cpu.rotateRight r 1 := by
      split
      · rfl
      · rfl
    rw [Function.iterate_succ_apply', hfirst, ih, hclear, if_neg n.succ_ne_zero]
    exact cpu.rotateLeft_rotateRight_one r

/-- **Rotating acts on a register as the counting round its fourteen digits does.**  Down by `n`
places each digit comes from `n` places further up.  Down by `n` and then by `m` places is down by
their sum, full turns restore the register, and as many single places up undo it.  Both carries are
cleared wherever there is a place to go. -/
theorem rotations_act (cpu : Processor) (r : RegisterName) :
    (∀ n, cpu.Turned (cpu.rotateRight r n) r n) ∧
    (∀ n m, (cpu.rotateRight r n).rotateRight r m = cpu.rotateRight r (n + m)) ∧
    (∀ k, (cpu.rotateRight r (14 * k)).register r = cpu.register r) ∧
    (∀ n, (rotateLeft · r)^[n] (cpu.rotateRight r n) =
      if n = 0 then cpu else cpu.clearCarries) := by
  refine ⟨cpu.turned_rotateRight r, cpu.rotateRight_rotateRight r, ?_,
    cpu.iterate_rotateLeft_rotateRight r⟩
  intro k
  rw [register_rotateRight, Register.iterate_rotateDown_mul]

/-- Of the digits 1, 2 and 3 at the bottom two go round to the top, and two places up bring them
back. -/
theorem rotations_act_three_digits :
    let cpu := (new .hp11c ⟨#[]⟩).setRegister .c (Register.zero.splice ⟨0, 2⟩ [1, 2, 3])
    let down := cpu.rotateRight .c 2
    (down.register .c).digit 0 = 3 ∧ (down.register .c).digit 12 = 1 ∧
      (down.register .c).digit 13 = 2 ∧ down.flags.carry = false ∧
      (down.rotateLeft .c).rotateLeft .c = cpu.clearCarries := by
  intro cpu down
  obtain ⟨hturned, -, -, hundo⟩ := rotations_act cpu .c
  have hdigit := (hturned 2).digit
  have hcarry : down.flags.carry = false := by
    rw [(hturned 2).flags]
    rfl
  have hback : (down.rotateLeft .c).rotateLeft .c = cpu.clearCarries :=
    (hundo 2).trans (if_neg (Nat.succ_ne_zero 1))
  exact ⟨(hdigit 0 (by decide)).trans (by decide), (hdigit 12 (by decide)).trans (by decide),
    (hdigit 13 (by decide)).trans (by decide), hcarry, hback⟩

end Processor

end Calculator

/-
# Addresses in registers

Four neighbouring digits hold an address: it is the number that they stand for in base sixteen.
What is put there can therefore be taken out again, and to put back what was taken out changes
nothing.  The processor does both digit by digit.  An address is gathered from its top digit down,
each digit making room for the next, and scattered from its bottom digit up, each digit cut out of
the whole.

A Nut moves addresses between `c` and the return stack.  As long as the ring does not overflow in
between, a pop puts back into `c` the digits that the push has found there, and leaves the others as
they are now (`addresses_convert`).
-/
import Calculator.Proofs.Conditions
import Calculator.Proofs.LoadStore
import Calculator.Proofs.ReturnAddresses
import Calculator.Proofs.Widths

namespace Calculator

/-! ## 1. Four digits -/

/-- The four positions from `lo` up. -/
def Span.four (lo : Nat) : Span := ⟨lo, lo + 3⟩

theorem Span.width_four (lo : Nat) : (four lo).width = 4 := by
  unfold width four
  dsimp only
  omega

theorem Span.positions_four (lo : Nat) : (four lo).positions = List.range' lo 4 := by
  rw [positions, width_four]
  rfl

namespace Register

variable {r r' : Register} {lo a : Nat}

theorem address_eq_number (r : Register) (lo : Nat) :
    r.address lo = r.number 0x10 (.four lo) := by
  have hpositions : List.range' lo 4 = [lo, lo + 1, lo + 2, lo + 3] := rfl
  rw [number, slice, Span.positions_four, hpositions]
  simp only [List.map_cons, List.map_nil, Nat.ofDigits_cons, Nat.ofDigits_nil]
  unfold address
  omega

theorem slice_putAddress (r : Register) (a : Nat) (hlo : lo ≤ 10) :
    (r.putAddress lo a).slice (.four lo) =
      [a % 0x10, a / 0x10 % 0x10, a / 0x100 % 0x10, a / 0x1000 % 0x10] := by
  refine slice_splice r (s := .four lo) ?_ (Span.width_four lo).symm
  show lo + 3 < 14
  omega

/-- Only the four digits change. -/
theorem digit_putAddress_of_not_mem (r : Register) (a : Nat) {i : Nat}
    (hi : i ∉ (Span.four lo).positions) : (r.putAddress lo a).digit i = r.digit i :=
  digit_splice_of_not_mem r _ hi

/-- What was put there is taken out. -/
theorem address_putAddress (r : Register) (hlo : lo ≤ 10) (ha : a < 0x10000) :
    (r.putAddress lo a).address lo = a := by
  rw [address_eq_number, number, slice_putAddress r a hlo]
  simp only [Nat.ofDigits_cons, Nat.ofDigits_nil]
  omega

/-- An address from another register brings the digits with it that it has there. -/
theorem digit_putAddress_address (r : Register) (h : r'.FourBit) (hlo : lo ≤ 10) (i : Nat) :
    (r.putAddress lo (r'.address lo)).digit i =
      if i ∈ (Span.four lo).positions then r'.digit i else r.digit i := by
  have hnumeral : (r.putAddress lo (r'.address lo)).Numeral 0x10 (.four lo) := by
    rw [numeral_iff, slice_putAddress r _ hlo]
    simp [Nat.mod_lt]
  have hnumber : (r.putAddress lo (r'.address lo)).number 0x10 (.four lo) =
      r'.number 0x10 (.four lo) := by
    rw [← address_eq_number, ← address_eq_number, address_putAddress r hlo (h.address_lt lo)]
  have hslice := hnumeral.slice_eq (h.numeral _) (by decide) hnumber
  split
  · exact slice_eq_iff.mp hslice i ‹_›
  · exact digit_putAddress_of_not_mem r _ ‹_›

/-- What was taken out can be put back. -/
theorem putAddress_address (h : r.FourBit) (hlo : lo ≤ 10) :
    r.putAddress lo (r.address lo) = r := by
  refine ext_digit fun i _ => ?_
  rw [digit_putAddress_address r h hlo, ite_self]

/-! ## 2. Digit by digit -/

/-- The address as it is gathered: the digits from the top one down, those before shifted up by a
digit each time. -/
def gathered (r : Register) (lo : Nat) : Nat :=
  (List.range' lo 4).foldr (fun i a => a <<< 4 ||| r.digit i) 0

/-- The register over which an address is scattered: the digits from the bottom one up, each shifted
down from its place in the address. -/
def scattered (r : Register) (lo a : Nat) : Register :=
  r.putAll lo ((List.range 4).map fun k => a >>> (4 * k) &&& 0xf)

theorem foldr_shiftLeft_or (h : r.FourBit) (is : List Nat) :
    is.foldr (fun i a => a <<< 4 ||| r.digit i) 0 = Nat.ofDigits 0x10 (is.map r.digit) := by
  induction is with
  | nil => rfl
  | cons i is ih =>
    rw [List.foldr_cons, ih, List.map_cons, Nat.ofDigits_cons,
      ← Nat.shiftLeft_add_eq_or_of_lt (h i), Nat.shiftLeft_eq]
    omega

theorem gathered_eq (h : r.FourBit) (lo : Nat) : r.gathered lo = r.address lo := by
  rw [gathered, foldr_shiftLeft_or h, address_eq_number, number, slice, Span.positions_four]

theorem scattered_eq (r : Register) (lo a : Nat) : r.scattered lo a = r.putAddress lo a := by
  have hdigits : ((List.range 4).map fun k => a >>> (4 * k) &&& 0xf) =
      [a % 0x10, a / 0x10 % 0x10, a / 0x100 % 0x10, a / 0x1000 % 0x10] := by
    have hdigit : ∀ k, a >>> (4 * k) &&& 0xf = a / 2 ^ (4 * k) % 0x10 := by
      intro k
      rw [Nat.shiftRight_eq_div_pow]
      exact Nat.and_two_pow_sub_one_eq_mod _ 4
    simp [hdigit, List.range_succ]
  rw [scattered, hdigits]
  exact putAll_eq_splice r (s := .four lo) (Span.width_four lo).symm

end Register

namespace Processor

variable {cpu mid last : Processor} {word word' : Nat} {es : List StackEvent} {a : Address}

/-! ## 3. Ticks on the return stack -/

/-- Nothing has happened to the return stack before the instruction runs. -/
theorem stackRun_ready (cpu : Processor) : StackRun cpu [] cpu.ready :=
  StackRun.start.other (cpu.changesOnly_ready .stack (by simp))

theorem Executes.stackRun_pushC (h : cpu.Executes word (.flow .pushC)) :
    StackRun cpu [.push ((cpu.register .c).address 3)] cpu.tick.cpu := by
  have hpush := cpu.stackRun_ready.pushC
  rw [ready_register] at hpush
  rw [h.tick_eq.1]
  exact hpush.other rfl

theorem Executes.stackRun_popC (h : mid.Executes word (.flow .popC)) :
    StackRun mid [.pop] mid.tick.cpu := by
  rw [h.tick_eq.1]
  exact mid.stackRun_ready.popC.other rfl

/-- A pop puts into `c` the address that is on top. -/
theorem Executes.register_popC (h : mid.Executes word (.flow .popC)) (htop : mid.stack.top = a) :
    mid.tick.cpu.register .c = (mid.register .c).putAddress 3 a := by
  have hstack : mid.ready.stack = mid.stack := mid.changesOnly_ready .stack (by simp)
  have hpop := mid.ready.yields_top.popC
  rw [ready_register, hstack, htop] at hpop
  rw [h.tick_eq.1]
  exact hpop

theorem Executes.pc_goToC (h : last.Executes word (.flow .goToC)) :
    last.tick.fault = none ∧ last.tick.cpu.pc = (last.register .c).address 3 := by
  rw [h.tick_eq.1, h.tick_eq.2, ← ready_register]
  exact ⟨rfl, rfl⟩

/-- After a push, a well nested run that leaves room for it has the address on top again. -/
theorem Executes.top_of_wellNested (hpush : cpu.Executes word (.flow .pushC))
    (hnext : cpu.stack.next < 4) (hrun : StackRun cpu.tick.cpu es mid) (hes : WellNested 3 es) :
    mid.stack.top = (cpu.register .c).address 3 := by
  have hlist : outstanding (.push ((cpu.register .c).address 3) :: es) =
      [(cpu.register .c).address 3] :=
    hes.foldl_next (Nat.le_refl 4)
  have hholds := (stack_holds hnext (hpush.stackRun_pushC.trans hrun)).2
  exact (hlist ▸ hholds).top_eq

/-! ## 4. Through the return stack and back -/

/-- A processor that has taken an address back into `c`: the digits that hold it are those of the
processor that put it away, the others those of the processor that asked for it. -/
structure TakenBack (away mid after : Processor) : Prop where
  address : (after.register .c).address 3 = (away.register .c).address 3
  digit : ∀ i, (after.register .c).digit i =
    if i ∈ (Span.four 3).positions then (away.register .c).digit i else (mid.register .c).digit i
  /-- Nothing else has changed but what every tick touches. -/
  frame : ChangesOnly (tickFootprint ++ [.register .c, .stack]) mid after

theorem Executes.takenBack (hpop : mid.Executes word (.flow .popC))
    (hc : (cpu.register .c).FourBit) (htop : mid.stack.top = (cpu.register .c).address 3) :
    TakenBack cpu mid mid.tick.cpu where
  address := by
    rw [hpop.register_popC htop, Register.address_putAddress _ (by decide) (hc.address_lt 3)]
  digit := by
    intro i
    rw [hpop.register_popC htop, Register.digit_putAddress_address _ hc (by decide)]
  frame := hpop.tick_changesOnly (mid.ready.run_changesOnly (.flow .popC))

/-- **Addresses go into registers and come out again.**  Wherever a register has the four digits, an
address that is put there is taken out again, an address that was taken out can be put back, no
other digit is touched, and it makes no difference that digits are scattered and gathered one by one.
On a Nut, a push of `c` and the pop that matches it, with no more than three levels nested in
between, bring the digits of the address back into `c` and leave the others as they have become; a
jump to what `c` then holds goes to the address. -/
theorem addresses_convert :
    (∀ (r : Register) (lo : Nat), r.FourBit → lo ≤ 10 →
      (∀ a < 0x10000, (r.putAddress lo a).address lo = a) ∧
      (∀ a, ∀ i ∉ (Span.four lo).positions, (r.putAddress lo a).digit i = r.digit i) ∧
      r.putAddress lo (r.address lo) = r ∧
      r.gathered lo = r.address lo ∧ ∀ a, r.scattered lo a = r.putAddress lo a) ∧
    (∀ {cpu mid : Processor} {word word' : Nat} {es : List StackEvent}, cpu.stack.next < 4 →
      (cpu.register .c).FourBit → cpu.Executes word (.flow .pushC) →
      StackRun cpu.tick.cpu es mid → WellNested 3 es → mid.Executes word' (.flow .popC) →
      cpu.tick.fault = none ∧ mid.tick.fault = none ∧ TakenBack cpu mid mid.tick.cpu ∧
      ∀ {last : Processor} {word'' : Nat}, last.register .c = mid.tick.cpu.register .c →
        last.Executes word'' (.flow .goToC) →
        last.tick.fault = none ∧ last.tick.cpu.pc = (cpu.register .c).address 3) := by
  constructor
  · intro r lo h hlo
    exact ⟨fun a ha => r.address_putAddress hlo ha,
      fun a i hi => r.digit_putAddress_of_not_mem a hi, Register.putAddress_address h hlo,
      Register.gathered_eq h lo, r.scattered_eq lo⟩
  · intro cpu mid word word' es hnext hc hpush hrun hes hpop
    have htaken := hpop.takenBack hc (hpush.top_of_wellNested hnext hrun hes)
    refine ⟨hpush.tick_eq.2, hpop.tick_eq.2, htaken, ?_⟩
    intro last word'' hlast hgo
    obtain ⟨hfault, hpc⟩ := hgo.pc_goToC
    rw [hlast, htaken.address] at hpc
    exact ⟨hfault, hpc⟩

/-- An HP-12C puts an address away, clears `c`, puts that away too and takes it back.  Then it takes
back the first address and jumps there. -/
theorem addresses_convert_nested :
    let image : Rom := ⟨#[0x170, 0x1a0, 0x170, 0x1b0, 0x1b0, 0x1e0]⟩
    let cpu := (new .hp12c image).setRegister .c (Register.zero.putAddress 3 0x1234)
    let mid := (List.replicate 4 Act.tick).foldl perform cpu
    (cpu.register .c).address 3 = 0x1234 ∧ mid.register .c = .zero ∧
      (mid.tick.cpu.register .c).address 3 = 0x1234 ∧ mid.tick.cpu.tick.cpu.pc = 0x1234 := by
  intro image cpu mid
  have haddress : (cpu.register .c).address 3 = 0x1234 :=
    (addresses_convert.1 .zero 3 Register.fourBit_zero (by decide)).1 0x1234 (by decide)
  have hc : (cpu.register .c).FourBit := Register.fourBit_of_lt (by decide)
  have hone : Reaches (fun _ _ => True) cpu cpu.tick.cpu := .act .tick .start trivial
  have htwo := hone.act .tick trivial
  have hthree := htwo.act .tick trivial
  have hfour := hthree.act .tick trivial
  have hpush : cpu.Executes 0x170 (.flow .pushC) := ⟨by decide +kernel, by decide +kernel, rfl⟩
  have hinner : cpu.tick.cpu.tick.cpu.Executes 0x170 (.flow .pushC) :=
    ⟨by decide +kernel, by decide +kernel, htwo.hardware_eq ▸ rfl⟩
  have hback : cpu.tick.cpu.tick.cpu.tick.cpu.Executes 0x1b0 (.flow .popC) :=
    ⟨by decide +kernel, by decide +kernel, hthree.hardware_eq ▸ rfl⟩
  have hpop : mid.Executes 0x1b0 (.flow .popC) :=
    ⟨by decide +kernel, by decide +kernel, hfour.hardware_eq ▸ rfl⟩
  have hgo : mid.tick.cpu.Executes 0x1e0 (.flow .goToC) :=
    ⟨by decide +kernel, by decide +kernel, (hfour.act .tick trivial).hardware_eq ▸ rfl⟩
  have hclear : StackRun cpu.tick.cpu [] cpu.tick.cpu.tick.cpu :=
    StackRun.start.other (by decide +kernel)
  have hrun := (hclear.trans hinner.stackRun_pushC).trans hback.stackRun_popC
  obtain ⟨-, -, htaken, hjump⟩ := addresses_convert.2 (by decide +kernel) hc hpush hrun
    (.nest _ (.nil 2) (.nil 3)) hpop
  exact ⟨haddress, by decide +kernel, htaken.address.trans haddress,
    (hjump rfl hgo).2.trans haddress⟩

end Processor

end Calculator

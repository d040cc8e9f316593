/-
# Shifting is scaling

A shift moves the digits of a span by one place.  In whatever base they are read, the number that
they stand for is multiplied by the base on the way up, as far as the span has room for the product,
and divided by it on the way down (`shifts_scale`).  Up and down again loses the top digit alone.

The register is shifted in place, digit by digit, and each digit is fetched before it is replaced
only because the positions are taken in the right order: from the top on the way up and from the
bottom on the way down.
-/
import Calculator.Proofs.ArithmeticFrame
import Calculator.Proofs.Guarded

namespace Calculator

/-! ## 1. Digits -/

namespace Serial

variable {radix : Nat} {ds : List Nat}

/-- Upwards, the top digit is what the product has too much. -/
theorem ofDigits_shiftUp (hradix : 0 < radix) (h : ∀ d ∈ ds, d < radix) :
    Nat.ofDigits radix (shiftUp ds) = Nat.ofDigits radix ds * radix % radix ^ ds.length := by
  have hdigits : ∀ d ∈ 0 :: ds, d < radix := List.forall_mem_cons.mpr ⟨hradix, h⟩
  calc Nat.ofDigits radix (shiftUp ds)
      = Nat.ofDigits radix ((0 :: ds).take ds.length) := by
        rw [shiftUp, List.dropLast_eq_take, List.length_cons, Nat.add_sub_cancel]
    _ = Nat.ofDigits radix (0 :: ds) % radix ^ ds.length :=
        (Nat.ofDigits_mod_pow_eq_ofDigits_take _ hradix _ hdigits).symm
    _ = Nat.ofDigits radix ds * radix % radix ^ ds.length := by
        rw [Nat.ofDigits_cons, zero_add, mul_comm]

/-- Downwards, the bottom digit is the remainder. -/
theorem ofDigits_shiftDown (hradix : 0 < radix) (h : ∀ d ∈ ds, d < radix) :
    Nat.ofDigits radix (shiftDown ds) = Nat.ofDigits radix ds / radix := by
  have hdigits : ∀ d ∈ ds ++ [0], d < radix :=
    List.forall_mem_append.mpr ⟨h, List.forall_mem_singleton.mpr hradix⟩
  rw [shiftDown, ← Nat.ofDigits_div_eq_ofDigits_tail hradix _ hdigits, Nat.ofDigits_append_zero]

theorem shiftDown_shiftUp (rest : List Nat) (top : Nat) :
    shiftDown (shiftUp (rest ++ [top])) = rest ++ [0] := by
  rw [shiftUp, ← List.cons_append, List.dropLast_concat]
  rfl

end Serial

/-! ## 2. Registers -/

namespace Register

variable {s : Span}

/-- A span with a new top digit. -/
theorem slice_put_last (r : Register) (hs : s.Inside) (d : Nat) :
    ∃ rest, r.slice s = rest ++ [r.digit s.last] ∧ (r.put s.last d).slice s = rest ++ [d] := by
  have hwidth := hs.first_add_width
  obtain ⟨n, hn⟩ : ∃ n, s.width = n + 1 := ⟨s.last - s.first, by have := hs.1; omega⟩
  have hlast : s.first + n = s.last := by omega
  have hslice : ∀ r' : Register, r'.slice s = r'.window s.first n ++ [r'.digit s.last] := by
    intro r'
    rw [← hlast, ← window_concat, ← hn]
    rfl
  refine ⟨r.window s.first n, hslice r, ?_⟩
  rw [hslice, window_put r (.inr hlast.le), digit_put r _ _ hs.2, if_pos rfl]

/-- In an empty span there is nothing to be replaced. -/
theorem splice_of_empty (r : Register) (hs : s.last < s.first) (ds : List Nat) :
    r.splice s ds = r := by
  refine ext_digit fun i hi => ?_
  rw [digit_splice r s ds hi, if_neg (by omega)]

end Register

namespace Processor

variable {cpu : Processor} {r : RegisterName} {s : Span}

/-! ## 3. Shifts -/

/-- What a shift makes of a span: the number in it is scaled, in every base to which the digits
belong, the digits elsewhere are kept and the carry is cleared. -/
structure Scales (cpu after : Processor) (r : RegisterName) (s : Span) (prevCarry : Bool)
    (scaled : (radix n : Nat) → Nat) : Prop where
  number : ∀ radix, 0 < radix → (cpu.register r).Numeral radix s →
    (after.register r).number radix s = scaled radix ((cpu.register r).number radix s)
  outside : ∀ i, i ∉ s.positions → (after.register r).digit i = (cpu.register r).digit i
  flags : after.flags = { cpu.flags with carry := false, prevCarry := prevCarry }
  /-- Whatever is not named here is left alone. -/
  frame : ChangesOnly [.register r, .carry, .prevCarry] cpu after

theorem register_shiftLeft (cpu : Processor) (r : RegisterName) (s : Span) :
    (cpu.shiftLeft r s).register r =
      (cpu.register r).splice s (Serial.shiftUp ((cpu.register r).slice s)) :=
  (cpu.register_setRegister r r _).trans (if_pos rfl)

theorem register_shiftRight (cpu : Processor) (r : RegisterName) (s : Span) :
    (cpu.shiftRight r s).register r =
      (cpu.register r).splice s (Serial.shiftDown ((cpu.register r).slice s)) :=
  (cpu.register_setRegister r r _).trans (if_pos rfl)

theorem slice_shiftLeft (cpu : Processor) (r : RegisterName) (hs : s.Inside) :
    ((cpu.shiftLeft r s).register r).slice s = Serial.shiftUp ((cpu.register r).slice s) := by
  rw [register_shiftLeft]
  exact Register.slice_splice _ hs.2 (by simp)

theorem slice_shiftRight (cpu : Processor) (r : RegisterName) (hs : s.Inside) :
    ((cpu.shiftRight r s).register r).slice s = Serial.shiftDown ((cpu.register r).slice s) := by
  rw [register_shiftRight]
  exact Register.slice_splice _ hs.2 (by simp)

theorem scales_shiftLeft (cpu : Processor) (r : RegisterName) (hs : s.Inside) :
    cpu.Scales (cpu.shiftLeft r s) r s false fun radix n => n * radix % radix ^ s.width where
  number := by
    intro radix hradix hdigits
    rw [Register.number, slice_shiftLeft cpu r hs,
      Serial.ofDigits_shiftUp hradix (Register.numeral_iff.mp hdigits), Register.length_slice]
    rfl
  outside := fun _ hi => cpu.digit_applyArithmetic_of_not_mem (.shiftLeft r) hi r
  flags := rfl
  frame := cpu.applyArithmetic_changesOnly (.shiftLeft r) s

theorem scales_shiftRight (cpu : Processor) (r : RegisterName) (hs : s.Inside) :
    cpu.Scales (cpu.shiftRight r s) r s cpu.flags.prevCarry fun radix n => n / radix where
  number := by
    intro radix hradix hdigits
    rw [Register.number, slice_shiftRight cpu r hs,
      Serial.ofDigits_shiftDown hradix (Register.numeral_iff.mp hdigits)]
    rfl
  outside := fun _ hi => cpu.digit_applyArithmetic_of_not_mem (.shiftRight r) hi r
  flags := rfl
  frame := (cpu.applyArithmetic_changesOnly (.shiftRight r) s).mono (by simp)

/-- Up and down again, the digits are back in their places, and the top one is gone. -/
theorem register_shiftRight_shiftLeft (cpu : Processor) (r : RegisterName) (hs : s.Inside) :
    ((cpu.shiftLeft r s).shiftRight r s).register r = (cpu.register r).put s.last 0 := by
  obtain ⟨rest, hbefore, hafter⟩ := (cpu.register r).slice_put_last hs 0
  refine Register.ext_slice (s := s) ?_ fun i hi => ?_
  · rw [slice_shiftRight _ r hs, slice_shiftLeft cpu r hs, hbefore, Serial.shiftDown_shiftUp,
      hafter]
  · have hlast : s.last ≠ i := by
      rintro rfl
      exact hi (Register.mem_positions.mpr ⟨hs.1, Nat.le_refl _⟩)
    rw [Register.digit_put_of_ne _ hlast]
    exact ((scales_shiftRight _ r hs).outside i hi).trans ((scales_shiftLeft cpu r hs).outside i hi)

theorem putDigits_of_empty (cpu : Processor) (r : RegisterName) (hs : s.last < s.first)
    (ds : List Nat) : cpu.putDigits r s ds = cpu := by
  refine eq_of_agrees fun c => ?_
  by_cases hc : c = .register r
  · subst hc
    exact ((cpu.register_setRegister r r _).trans (if_pos rfl)).trans
      (Register.splice_of_empty _ hs ds)
  · exact cpu.changesOnly_putDigits r s ds c (by simpa using hc)

/-- **Shifting a span scales its number.**  One place up it is multiplied by the base, and what goes
past the span is lost; one place down it is divided.  The carry is cleared, and on the way up the
carry before with it.  That is what comes of moving the digits one by one within the register, from
the top on the way up and from the bottom on the way down.  A span that goes up and down again is
what it was but for its top digit, which is zero.  Where the span is empty there are only the carries
to clear. -/
theorem shifts_scale (cpu : Processor) (r : RegisterName) (s : Span) :
    (s.Inside →
      (cpu.Scales (cpu.shiftLeft r s) r s false (fun radix n => n * radix % radix ^ s.width) ∧
        cpu.shiftLeft? r s = some (cpu.shiftLeft r s)) ∧
      (cpu.Scales (cpu.shiftRight r s) r s cpu.flags.prevCarry (fun radix n => n / radix) ∧
        cpu.shiftRight? r s = some (cpu.shiftRight r s)) ∧
      ((cpu.shiftLeft r s).shiftRight r s).register r = (cpu.register r).put s.last 0) ∧
    (s.last < s.first →
      cpu.shiftLeft r s = cpu.clearCarries ∧ cpu.shiftRight r s = cpu.setCarry false) := by
  constructor
  · intro hs
    exact ⟨⟨cpu.scales_shiftLeft r hs, cpu.shiftLeft?_eq hs r⟩,
      ⟨cpu.scales_shiftRight r hs, cpu.shiftRight?_eq hs r⟩,
      cpu.register_shiftRight_shiftLeft r hs⟩
  · intro hs
    rw [shiftLeft, shiftRight, cpu.putDigits_of_empty r hs, cpu.putDigits_of_empty r hs]
    exact ⟨rfl, rfl⟩

/-- Four digits, the lowest of them first, up once and down once. -/
theorem shifts_scale_four_digits :
    let cpu := (new .hp25 ⟨#[]⟩).setRegister .a (Register.zero.splice ⟨0, 3⟩ [1, 2, 3, 4])
    let s : Span := ⟨0, 3⟩
    s.Inside ∧ (cpu.register .a).Numeral 16 s ∧ (cpu.register .a).number 16 s = 0x4321 ∧
      ((cpu.shiftLeft .a s).register .a).number 16 s = 0x3210 ∧
      ((cpu.shiftRight .a s).register .a).number 16 s = 0x432 := by
  intro cpu s
  have hs : s.Inside := by decide
  have hdigits : (cpu.register .a).Numeral 16 s := by decide
  have hnumber : (cpu.register .a).number 16 s = 0x4321 := by decide
  obtain ⟨⟨hleft, -⟩, ⟨hright, -⟩, -⟩ := (shifts_scale cpu .a s).1 hs
  have hup := hleft.number 16 (by decide) hdigits
  have hdown := hright.number 16 (by decide) hdigits
  rw [hnumber] at hup hdown
  exact ⟨hs, hdigits, hnumber, hup.trans (by decide), hdown.trans (by decide)⟩

end Processor

end Calculator

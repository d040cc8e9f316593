/-
# What arithmetic leaves alone

An arithmetic operation works on one span of the registers.  Whatever the operation, the registers
that it names and the span, it writes to no digit outside the span, to no register but its
destinations and to no flag but the two carries (`KeepsToSpan`).  A span that is empty, or that goes
past the register, is no exception.  Exchanging is the one operation with two destinations, and it
undoes itself (`exchange_exchange`).
-/
import Calculator.Proofs.CarryAgeing
import Calculator.Proofs.Positional

namespace Calculator

/-! ## 1. Destinations -/

namespace ArithmeticOp

/-- The registers that an operation writes to. -/
def destinations : ArithmeticOp → List RegisterName
  | clear r | copy r _ | add r _ _ | subtract r _ _ | increment r | decrement r | negate r
  | negateDecrement r | shiftLeft r | shiftRight r => [r]
  | exchange r₁ r₂ => [r₁, r₂]
  | ifZero _ | ifNotZero _ | ifGreaterOrEqual _ _ | ifLess _ _ | ifNotEqual _ _ => []

/-- Whether the operation only moves digits. -/
def isMove : ArithmeticOp → Bool
  | clear _ | copy _ _ | exchange _ _ => true
  | _ => false

theorem destinations_of_isTest {op : ArithmeticOp} (h : op.isTest = true) : op.destinations = [] := by
  cases op <;> first | rfl | cases h

/-- The footprint of an operation is made of its destinations and the carries. -/
theorem footprint_subset (op : ArithmeticOp) :
    ∀ c ∈ op.footprint, c ∈ .carry :: .prevCarry :: op.destinations.map Component.register := by
  cases op <;> simp [destinations]

end ArithmeticOp

namespace Register

/-- A register into which the digits of another one are spliced has these in the span and its own
elsewhere. -/
theorem digit_splice_slice (r r' : Register) (s : Span) (i : Nat) :
    (r.splice s (r'.slice s)).digit i = if i ∈ s.positions then r'.digit i else r.digit i := by
  split
  · rcases Nat.lt_or_ge i 14 with hi | hi
    · obtain ⟨hfirst, hlast⟩ := mem_positions.mp ‹_›
      have hlength : i - s.first < (r'.slice s).length := by
        rw [length_slice, Span.width]
        omega
      rw [digit_splice r s _ hi, if_pos ⟨hfirst, hlast⟩, List.getD_eq_getElem?_getD,
        List.getElem?_eq_getElem hlength, Option.getD_some, getElem_slice,
        Nat.add_sub_cancel' hfirst]
    · rw [digit_of_le _ hi, digit_of_le _ hi]
  · exact r.digit_splice_of_not_mem _ ‹_›

end Register

namespace Processor

variable {s : Span} {i : Nat}

/-- Arithmetic that keeps to a span, from what was there before and what is there after. -/
structure KeepsToSpan (op : ArithmeticOp) (s : Span) (cpu after : Processor) : Prop where
  /-- All that may change is in the destinations, the carry and the carry before. -/
  frame : ChangesOnly (.carry :: .prevCarry :: op.destinations.map .register) cpu after
  /-- No register changes outside the span, not even a destination. -/
  outside : ∀ r i, i ∉ s.positions → (after.register r).digit i = (cpu.register r).digit i
  test : op.isTest = true → ∀ r, after.register r = cpu.register r
  move : op.isMove = true → after.flags = cpu.flags
  /-- A carry before is lost to a shift to the left alone. -/
  prevCarry : (∀ r, op ≠ .shiftLeft r) → after.flags.prevCarry = cpu.flags.prevCarry

/-! ## 2. Digits outside the span -/

theorem digit_putDigits_of_not_mem (cpu : Processor) (r : RegisterName) (ds : List Nat)
    (h : i ∉ s.positions) (r' : RegisterName) :
    ((cpu.putDigits r s ds).register r').digit i = (cpu.register r').digit i := by
  unfold putDigits
  rw [register_setRegister]
  split
  · subst r'
    exact Register.digit_splice_of_not_mem _ ds h
  · rfl

theorem digit_applyArithmetic_of_not_mem (cpu : Processor) (op : ArithmeticOp) (h : i ∉ s.positions)
    (r : RegisterName) :
    ((cpu.applyArithmetic op s).register r).digit i = (cpu.register r).digit i := by
  have hput := fun (cpu' : Processor) dst ds => cpu'.digit_putDigits_of_not_mem dst ds h r
  cases op with
  | clear dst | copy dst src => exact hput cpu dst _
  | exchange r₁ r₂ => exact (hput _ r₂ _).trans (hput cpu r₁ _)
  | add dst src arg | subtract dst src arg => exact hput cpu dst _
  | negate dst | shiftLeft dst | shiftRight dst => exact hput cpu dst _
  | increment dst | decrement dst | negateDecrement dst => exact hput (cpu.setCarry true) dst _
  | ifZero _ | ifNotZero _ | ifGreaterOrEqual _ _ | ifLess _ _ | ifNotEqual _ _ => rfl

/-! ## 3. Exchanging -/

/-- An exchange puts the digits of each register into the other one. -/
theorem digit_exchange (cpu : Processor) (r₁ r₂ : RegisterName) (s : Span) (r : RegisterName)
    (i : Nat) :
    ((cpu.exchange r₁ r₂ s).register r).digit i =
      if i ∉ s.positions then (cpu.register r).digit i
      else if r = r₂ then (cpu.register r₁).digit i
      else if r = r₁ then (cpu.register r₂).digit i
      else (cpu.register r).digit i := by
  by_cases hi : i ∈ s.positions
  · rw [if_neg (not_not_intro hi)]
    simp only [exchange, putDigits, register_setRegister]
    split
    · rw [Register.digit_splice_slice, if_pos hi]
    · split
      · rw [Register.digit_splice_slice, if_pos hi]
      · rfl
  · rw [if_pos hi]
    exact cpu.digit_applyArithmetic_of_not_mem (.exchange r₁ r₂) hi r

/-- **An exchange undoes itself**, also if a register is exchanged with itself. -/
theorem exchange_exchange (cpu : Processor) (r₁ r₂ : RegisterName) (s : Span) :
    (cpu.exchange r₁ r₂ s).exchange r₁ r₂ s = cpu := by
  have hframe : ChangesOnly [.register r₁, .register r₂] cpu
      ((cpu.exchange r₁ r₂ s).exchange r₁ r₂ s) :=
    (cpu.changesOnly_exchange r₁ r₂ s).trans (changesOnly_exchange _ r₁ r₂ s)
  refine eq_of_agrees fun c => ?_
  by_cases hc : c ∈ [.register r₁, .register r₂]
  · obtain ⟨r, rfl⟩ : ∃ r, c = .register r := by
      simp only [List.mem_cons, List.not_mem_nil, or_false] at hc
      exact hc.elim (fun h => ⟨r₁, h⟩) fun h => ⟨r₂, h⟩
    refine Register.ext_digit fun i _ => ?_
    simp only [digit_exchange]
    grind
  · exact hframe c hc

/-! ## 4. Every operation -/

theorem flags_of_isMove (cpu : Processor) {op : ArithmeticOp} (h : op.isMove = true) (s : Span) :
    (cpu.applyArithmetic op s).flags = cpu.flags := by
  cases op with
  | clear | copy | exchange => rfl
  | _ => cases h

/-- **Arithmetic keeps to its span**, whichever operation it is, whichever registers are named, be they
the same or not, and whatever the span; and an exchange puts into each register what was in the other,
so that a second one restores both. -/
theorem arithmetic_keeps_to_span (cpu : Processor) (s : Span) :
    (∀ op, KeepsToSpan op s cpu (cpu.applyArithmetic op s)) ∧
    (∀ r₁ r₂, ∀ i ∈ s.positions,
      ((cpu.applyArithmetic (.exchange r₁ r₂) s).register r₁).digit i = (cpu.register r₂).digit i ∧
      ((cpu.applyArithmetic (.exchange r₁ r₂) s).register r₂).digit i = (cpu.register r₁).digit i) ∧
    (∀ r₁ r₂, (cpu.applyArithmetic (.exchange r₁ r₂) s).applyArithmetic (.exchange r₁ r₂) s = cpu) := by
  refine ⟨fun op => ?_, fun r₁ r₂ i hi => ?_, fun r₁ r₂ => cpu.exchange_exchange r₁ r₂ s⟩
  · have hframe := (cpu.applyArithmetic_changesOnly op s).mono op.footprint_subset
    refine ⟨hframe, ?_, ?_, fun hmove => cpu.flags_of_isMove hmove s, ?_⟩
    · exact fun r i hi => cpu.digit_applyArithmetic_of_not_mem op hi r
    · intro htest r
      rw [ArithmeticOp.destinations_of_isTest htest] at hframe
      exact hframe (.register r) (by simp)
    · exact fun hshift => applyArithmetic_prevCarry hshift s
  · simp only [applyArithmetic, digit_exchange]
    grind

end Processor

end Calculator

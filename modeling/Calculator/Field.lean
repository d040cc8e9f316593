/-
# Register fields

Arithmetic instructions name their span by a *field*.  Six fields are fixed parts of the register;
three depend on the pointers.
-/
import Calculator.Register

namespace Calculator

/-- The parts of a register that an instruction can name. -/
inductive Field where
  /-- The digit at the pointer. -/
  | pointer
  /-- Digit 0 up to the digit at the pointer. -/
  | wordPointer
  /-- The ten digits of the mantissa. -/
  | mantissa
  /-- The mantissa and its sign. -/
  | mantissaSign
  /-- The two digits of the exponent and its sign. -/
  | exponent
  /-- The sign of the exponent. -/
  | exponentSign
  /-- The whole register. -/
  | word
  /-- The sign of the mantissa. -/
  | sign
  /-- From pointer P up to pointer Q, or to the top if P is above Q. -/
  | pointerPair
  deriving DecidableEq, Repr

namespace Field

/-- The short name of a field. -/
def text : Field → String
  | pointer => "p" | wordPointer => "wp" | mantissa => "m" | mantissaSign => "ms"
  | exponent => "x" | exponentSign => "xs" | word => "w" | sign => "s" | pointerPair => "pq"

/-- Whether the span of the field depends on the pointers. -/
def usesPointer : Field → Bool
  | pointer | wordPointer | pointerPair => true
  | _ => false

/-- The span of a field when the pointers stand at `p` and `q` and the active one at `active`. -/
def span (p q active : Nat) : Field → Span
  | pointer => .single active
  | wordPointer => ⟨0, active⟩
  | mantissa => ⟨3, 12⟩
  | mantissaSign => ⟨3, 13⟩
  | exponent => ⟨0, 2⟩
  | exponentSign => .single 2
  | word => .word
  | sign => .single 13
  | pointerPair => ⟨p, if q < p then 13 else q⟩

end Field

end Calculator

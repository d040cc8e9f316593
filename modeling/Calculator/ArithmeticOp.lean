/-
# Arithmetic operations

The five bit operations that an arithmetic word applies to a field.  Three families order them
differently but draw on the same sixteen kinds.
-/
import Calculator.Processor.Fields

namespace Calculator

/-- The kinds of arithmetic operation.  Operands read destination, source, argument. -/
inductive ArithmeticOp where
  | clear (r : RegisterName)
  | copy (dst src : RegisterName)
  | exchange (r₁ r₂ : RegisterName)
  | add (dst src arg : RegisterName)
  | subtract (dst src arg : RegisterName)
  | increment (r : RegisterName)
  | decrement (r : RegisterName)
  /-- Zero less the register. -/
  | negate (r : RegisterName)
  /-- Zero less the register less one. -/
  | negateDecrement (r : RegisterName)
  | shiftLeft (r : RegisterName)
  | shiftRight (r : RegisterName)
  | ifZero (r : RegisterName)
  | ifNotZero (r : RegisterName)
  | ifGreaterOrEqual (r₁ r₂ : RegisterName)
  | ifLess (r₁ r₂ : RegisterName)
  | ifNotEqual (r₁ r₂ : RegisterName)
  deriving DecidableEq, Repr

namespace ArithmeticOp

/-- Whether the operation only leaves an outcome in the carry. -/
def isTest : ArithmeticOp → Bool
  | ifZero _ | ifNotZero _ | ifGreaterOrEqual _ _ | ifLess _ _ | ifNotEqual _ _ => true
  | _ => false

/-- The text of an operation. -/
def text : ArithmeticOp → String
  | clear r => "0 -> " ++ r.text
  | copy dst src => src.text ++ " -> " ++ dst.text
  | exchange r₁ r₂ => r₁.text ++ " exch " ++ r₂.text
  | add dst src arg => src.text ++ " + " ++ arg.text ++ " -> " ++ dst.text
  | subtract dst src arg => src.text ++ " - " ++ arg.text ++ " -> " ++ dst.text
  | increment r => r.text ++ " + 1 -> " ++ r.text
  | decrement r => r.text ++ " - 1 -> " ++ r.text
  | negate r => "0 - " ++ r.text ++ " -> " ++ r.text
  | negateDecrement r => "0 - " ++ r.text ++ " - 1 -> " ++ r.text
  | shiftLeft r => "shift left " ++ r.text
  | shiftRight r => "shift right " ++ r.text
  | ifZero r => "if " ++ r.text ++ " = 0"
  | ifNotZero r => "if " ++ r.text ++ " != 0"
  | ifGreaterOrEqual r₁ r₂ => "if " ++ r₁.text ++ " >= " ++ r₂.text
  | ifLess r₁ r₂ => "if " ++ r₁.text ++ " < " ++ r₂.text
  | ifNotEqual r₁ r₂ => "if " ++ r₁.text ++ " != " ++ r₂.text

end ArithmeticOp

/-- Applies an operation to a span. -/
def Processor.applyArithmetic (cpu : Processor) (op : ArithmeticOp) (s : Span) : Processor :=
  match op with
  | .clear r => cpu.copy r none s
  | .copy dst src => cpu.copy dst (some src) s
  | .exchange r₁ r₂ => cpu.exchange r₁ r₂ s
  | .add dst src arg => cpu.add (some dst) src (some arg) s
  | .subtract dst src arg => cpu.subtract (some dst) (some src) (some arg) s
  | .increment r => cpu.increment r s
  | .decrement r => cpu.decrement r s
  | .negate r => cpu.subtract (some r) none (some r) s
  | .negateDecrement r => (cpu.setCarry true).subtract (some r) none (some r) s
  | .shiftLeft r => cpu.shiftLeft r s
  | .shiftRight r => cpu.shiftRight r s
  | .ifZero r => cpu.testEqual r none s
  | .ifNotZero r => cpu.testDifferent r none s
  | .ifGreaterOrEqual r₁ r₂ => cpu.testNotLess r₁ r₂ s
  | .ifLess r₁ r₂ => cpu.testLess r₁ r₂ s
  | .ifNotEqual r₁ r₂ => cpu.testDifferent r₁ (some r₂) s

end Calculator

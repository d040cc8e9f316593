/-
# Operations on a span

What the arithmetic unit does to one span of the named registers.  An operand that is absent reads
as zero, and an operation without a destination leaves only a carry.  `Processor.spanOf?` finds the
span that a field stands for; it fails for the pointer fields while a pointer is past the register.
-/
import Calculator.Diagnostic
import Calculator.Processor

namespace Calculator.Processor

/-! ## 1. Fields -/

/-- The span of a field with the pointers where they stand.  A pointer field needs both pointers
within the register. -/
def spanOf? (cpu : Processor) (field : Field) : Except Fault Span :=
  if field.usesPointer ∧ ¬(cpu.p < 14 ∧ cpu.q < 14) then
    .error (.pointerOutOfRange cpu.last (if cpu.p < 14 then cpu.q else cpu.p))
  else
    .ok (field.span cpu.p cpu.q cpu.pointer)

/-- The field of a three bit code, and its span. -/
def selectField? (cpu : Processor) (code : Nat) : Except Fault (Field × Span) :=
  let field := cpu.hardware.field code
  (cpu.spanOf? field).map fun s => (field, s)

/-! ## 2. Moves -/

/-- The content of an operand. -/
def operand (cpu : Processor) : Option RegisterName → Register
  | some r => cpu.register r
  | none => .zero

/-- Replaces the digits of a register within a span. -/
def putDigits (cpu : Processor) (r : RegisterName) (s : Span) (ds : List Nat) : Processor :=
  cpu.setRegister r ((cpu.register r).splice s ds)

/-- Copies an operand into a register. -/
def copy (cpu : Processor) (dst : RegisterName) (src : Option RegisterName) (s : Span) :
    Processor :=
  cpu.putDigits dst s ((cpu.operand src).slice s)

/-- Exchanges the digits of two registers. -/
def exchange (cpu : Processor) (r₁ r₂ : RegisterName) (s : Span) : Processor :=
  let ds₁ := (cpu.register r₁).slice s
  let ds₂ := (cpu.register r₂).slice s
  (cpu.putDigits r₁ s ds₂).putDigits r₂ s ds₁

/-! ## 3. Sums and differences -/

/-- Takes over the result of the adder: digits for the destination, if there is one, and the
carry. -/
def takeResult (cpu : Processor) (dst : Option RegisterName) (s : Span) (result : List Nat × Bool) :
    Processor :=
  match dst with
  | some r => (cpu.putDigits r s result.1).setCarry result.2
  | none => cpu.setCarry result.2

/-- Adds an operand and the carry to a register. -/
def add (cpu : Processor) (dst : Option RegisterName) (src : RegisterName)
    (arg : Option RegisterName) (s : Span) : Processor :=
  cpu.takeResult dst s <|
    Serial.add cpu.base.radix cpu.flags.carry ((cpu.register src).slice s)
      ((cpu.operand arg).slice s)

/-- Takes an operand and the carry from another one. -/
def subtract (cpu : Processor) (dst src arg : Option RegisterName) (s : Span) : Processor :=
  cpu.takeResult dst s <|
    Serial.subtract cpu.base.radix cpu.flags.carry ((cpu.operand src).slice s)
      ((cpu.operand arg).slice s)

/-- Adds one, whatever the carry was. -/
def increment (cpu : Processor) (r : RegisterName) (s : Span) : Processor :=
  (cpu.setCarry true).add (some r) r none s

/-- Takes one away, whatever the carry was. -/
def decrement (cpu : Processor) (r : RegisterName) (s : Span) : Processor :=
  (cpu.setCarry true).subtract (some r) (some r) none s

/-! ## 4. Logic -/

/-- The bitwise or of a register and an operand. -/
def bitwiseOr (cpu : Processor) (dst src : RegisterName) (arg : Option RegisterName) (s : Span) :
    Processor :=
  cpu.putDigits dst s
    (List.zipWith (· ||| ·) ((cpu.register src).slice s) ((cpu.operand arg).slice s))

/-- The bitwise and of a register and an operand. -/
def bitwiseAnd (cpu : Processor) (dst src : RegisterName) (arg : Option RegisterName) (s : Span) :
    Processor :=
  cpu.putDigits dst s
    (List.zipWith (· &&& ·) ((cpu.register src).slice s) ((cpu.operand arg).slice s))

/-! ## 5. Tests -/

/-- Sets the carry if a register and an operand agree. -/
def testEqual (cpu : Processor) (r : RegisterName) (src : Option RegisterName) (s : Span) :
    Processor :=
  cpu.setCarry ((cpu.register r).slice s == (cpu.operand src).slice s)

/-- Sets the carry if a register and an operand differ. -/
def testDifferent (cpu : Processor) (r : RegisterName) (src : Option RegisterName) (s : Span) :
    Processor :=
  cpu.setCarry ((cpu.register r).slice s != (cpu.operand src).slice s)

/-- Sets the carry if the first register is less than the second with the carry added to it. -/
def testLess (cpu : Processor) (r₁ r₂ : RegisterName) (s : Span) : Processor :=
  cpu.subtract none (some r₁) (some r₂) s

/-- Sets the carry in just the other case. -/
def testNotLess (cpu : Processor) (r₁ r₂ : RegisterName) (s : Span) : Processor :=
  let after := cpu.testLess r₁ r₂ s
  after.setCarry (!after.flags.carry)

/-! ## 6. Shifts and rotations

Shifting up and rotating also clear the carry of the instruction before. -/

/-- Moves the digits of a span one place down and clears the carry. -/
def shiftRight (cpu : Processor) (r : RegisterName) (s : Span) : Processor :=
  (cpu.putDigits r s (Serial.shiftDown ((cpu.register r).slice s))).setCarry false

/-- Moves the digits of a span one place up and clears both carries. -/
def shiftLeft (cpu : Processor) (r : RegisterName) (s : Span) : Processor :=
  (cpu.putDigits r s (Serial.shiftUp ((cpu.register r).slice s))).clearCarries

/-- Rotates a whole register one place up and clears both carries. -/
def rotateLeft (cpu : Processor) (r : RegisterName) : Processor :=
  (cpu.setRegister r (cpu.register r).rotateUp).clearCarries

/-- Rotates a whole register `n` places down, one at a time, each time clearing both carries. -/
def rotateRight (cpu : Processor) (r : RegisterName) : Nat → Processor
  | 0 => cpu
  | n + 1 => ((cpu.setRegister r (cpu.register r).rotateDown).clearCarries).rotateRight r n

end Calculator.Processor

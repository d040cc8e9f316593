/-
# The guarded processor

The operations of `Processor` are total.  A digit past the register reads as zero, a status bit past
the last is dropped when it is set, and a sum has as many bits as it needs.  Here are the same
operations with a guard at every access and every sum that could go wrong in a machine with tables of
fixed sizes and words of fixed widths; where a guard fails the guarded operation traps.  Registers are
worked on digit by digit.

Beside each guarded operation stands what keeps it from trapping.  It is then the operation itself.
The peripherals are left out: their instructions trap.
-/
import Calculator.Proofs.Footprint
import Calculator.Proofs.Sweep

namespace Calculator

/-! ## 1. Numbers and return addresses -/

/-- A number that must stay below a limit. -/
def below? (limit n : Nat) : Option Nat := if n < limit then some n else none

/-- A difference that must not fall below zero. -/
def minus? (m n : Nat) : Option Nat := if n ≤ m then some (m - n) else none

theorem below?_eq {limit n : Nat} (h : n < limit) : below? limit n = some n := if_pos h

theorem minus?_eq {m n : Nat} (h : n ≤ m) : minus? m n = some (m - n) := if_pos h

namespace ReturnStack

/-- Puts a return address into the next cell, if there is such a cell. -/
def push? (s : ReturnStack) (a : Address) : Option ReturnStack :=
  if s.next < 4 then some (s.push a) else none

/-- The address on top of the stack, if the stack has the cell. -/
def top? (s : ReturnStack) : Option Address := s.cells[(s.next + 3) % 4]?

theorem push?_eq {s : ReturnStack} (h : s.next < 4) (a : Address) : s.push? a = some (s.push a) :=
  if_pos h

/-- The top of the stack cannot be missed: its cell is counted round the ring. -/
@[simp] theorem top?_eq (s : ReturnStack) : s.top? = some s.top := by
  have hlt : (s.next + 3) % 4 < 4 := Nat.mod_lt _ (by decide)
  simp [top?, top, Vector.getD, hlt]

end ReturnStack

namespace Processor

variable (cpu : Processor)

/-! ## 2. Status bits -/

/-- Sets or clears a status bit, if there is one. -/
def setBit? (i : Nat) (v : Bool) : Option Processor := if i < 16 then some (cpu.setBit i v) else none

/-- The value of a status bit, if there is one. -/
def bit? (i : Nat) : Option Bool := cpu.status[i]?

/-- Sets a status bit if a condition holds. -/
def raise? (i : Nat) (condition : Bool) : Option Processor :=
  if condition then cpu.setBit? i true else some cpu

theorem setBit?_eq {i : Nat} (h : i < 16) (v : Bool) : cpu.setBit? i v = some (cpu.setBit i v) :=
  if_pos h

theorem bit?_eq {i : Nat} (h : i < 16) : cpu.bit? i = some (cpu.bit i) := by
  simp [bit?, bit, Vector.getD, h]

theorem raise?_eq {i : Nat} (h : i < 16) (condition : Bool) :
    cpu.raise? i condition = some (cpu.raise i condition) := by
  unfold raise? raise
  rw [cpu.setBit?_eq h, apply_ite some]

/-- Latches the key and the switches. -/
def latchInputs? : Option Processor :=
  let key := cpu.keyboard.pressed
  let program := cpu.switches.program
  match cpu.hardware.inputs with
  | .classic => do (← (← cpu.raise? 0 key).raise? 3 program).raise? 11 cpu.switches.timer
  | .woodstock => do (← (← cpu.raise? 15 key).raise? 3 program).setBit? 5 true
  | .spice => do (← (← cpu.raise? 15 key).raise? 3 program).setBit? 5 false
  | .hp67 => do
    return { ← cpu.raise? 15 key with flags := { cpu.flags with mode := program } }
  | .nut => some { cpu with keyboard := { cpu.keyboard with flag := key || cpu.keyboard.flag } }
  | .none => some cpu

/-- The inputs go to fixed bits, all of them among the sixteen. -/
@[simp] theorem latchInputs?_eq : cpu.latchInputs? = some cpu.latchInputs := by
  unfold latchInputs? latchInputs
  simp only [raise?_eq _ (by decide : 0 < 16), raise?_eq _ (by decide : 3 < 16),
    raise?_eq _ (by decide : 11 < 16), raise?_eq _ (by decide : 15 < 16),
    setBit?_eq _ (by decide : 5 < 16), Option.bind_eq_bind, Option.bind_some, Option.pure_def]
  cases cpu.hardware.inputs <;> rfl

/-! ## 3. Registers -/

/-- A digit of a register, if there is one at the position. -/
def digit? (r : RegisterName) (i : Nat) : Option Nat := (cpu.register r).digit? i

/-- Replaces digits of a register from position `lo` up, one by one. -/
def putFrom? (r : RegisterName) (lo : Nat) (ds : List Nat) : Option Processor := do
  return cpu.setRegister r (← (cpu.register r).putAll? lo ds)

/-- The address in the four digits from position `lo` up. -/
def address? (r : RegisterName) (lo : Nat) : Option Address := do
  return (← cpu.digit? r lo) + (← cpu.digit? r (lo + 1)) * 0x10
    + (← cpu.digit? r (lo + 2)) * 0x100 + (← cpu.digit? r (lo + 3)) * 0x1000

/-- Goes over a span and puts into a register what a one-digit operation makes of two operands. -/
def along? (digit : Nat → Nat → Bool → Nat × Bool) (dst : RegisterName) (x y : Register)
    (carry : Bool) (s : Span) : Option (Processor × Bool) := do
  let (r, carry) ←
    Register.sweep? (Register.serial? digit x y) s.positions carry (cpu.register dst)
  return (cpu.setRegister dst r, carry)

theorem digit?_eq (r : RegisterName) {i : Nat} (h : i < 14) :
    cpu.digit? r i = some ((cpu.register r).digit i) :=
  Register.digit?_of_lt _ h

/-- Digits that end within the register can be put one by one. -/
theorem putFrom?_eq (r : RegisterName) {lo : Nat} {ds : List Nat} (hne : ds ≠ [])
    (h : lo + ds.length ≤ 14) : cpu.putFrom? r lo ds = some (cpu.putFrom r lo ds) := by
  have hpos := List.length_pos_iff.mpr hne
  have hwidth : ds.length = Span.width ⟨lo, lo + ds.length - 1⟩ := by
    unfold Span.width
    dsimp only
    omega
  have hsplice := (cpu.register r).putAll_eq_splice hwidth
  dsimp only at hsplice
  simp only [putFrom?, Register.putAll?_of_le _ h, hsplice]
  rfl

/-- An address takes four digits from its position up. -/
theorem address?_eq (r : RegisterName) {lo : Nat} (h : lo + 3 < 14) :
    cpu.address? r lo = some ((cpu.register r).address lo) := by
  simp only [address?, digit?_eq cpu r (by omega : lo < 14), digit?_eq cpu r (by omega : lo + 1 < 14),
    digit?_eq cpu r (by omega : lo + 2 < 14), digit?_eq cpu r h]
  rfl

/-- Over a span within the register, going digit by digit amounts to one splice. -/
theorem along?_eq (digit : Nat → Nat → Bool → Nat × Bool) (dst : RegisterName) (x y : Register)
    (carry : Bool) {s : Span} (h : s.Inside) :
    cpu.along? digit dst x y carry s =
      some (cpu.putDigits dst s (Serial.along digit carry (x.slice s) (y.slice s)).1,
        (Serial.along digit carry (x.slice s) (y.slice s)).2) := by
  unfold along?
  rw [Register.sweep?_serial digit x y _ h]
  rfl

end Processor

/-- A one-digit operation without a carry makes what it makes of each pair of digits. -/
theorem Serial.along_zipWith (op : Nat → Nat → Nat) (carry : Bool) (xs ys : List Nat) :
    along (fun x y c => (op x y, c)) carry xs ys = (List.zipWith op xs ys, carry) := by
  induction xs generalizing ys with
  | nil => simp [along]
  | cons x xs ih =>
    cases ys with
    | nil => simp [along]
    | cons y ys => simp [along, ih]

namespace Processor

variable (cpu : Processor)

/-! ## 4. Operations on a span -/

/-- Puts into a register what an operation makes of each pair of digits of two operands. -/
def zip? (op : Nat → Nat → Nat) (dst : RegisterName) (x y : Register) (s : Span) :
    Option Processor := do
  return (← cpu.along? (fun x y c => (op x y, c)) dst x y false s).1

/-- Copies an operand into a register. -/
def copy? (dst : RegisterName) (src : Option RegisterName) (s : Span) : Option Processor :=
  cpu.zip? (fun _ y => y) dst (cpu.register dst) (cpu.operand src) s

/-- Exchanges the digits of two registers. -/
def exchange? (r₁ r₂ : RegisterName) (s : Span) : Option Processor := do
  let x := cpu.register r₁
  let y := cpu.register r₂
  (← cpu.zip? (fun _ y => y) r₁ x y s).zip? (fun _ x => x) r₂ y x s

/-- Sums or differences of two operands go to the destination, if there is one, and the carry is
kept. -/
def sum? (digit : Nat → Nat → Bool → Nat × Bool) (dst : Option RegisterName) (x y : Register)
    (s : Span) : Option Processor :=
  match dst with
  | some r => do
    let (after, carry) ← cpu.along? digit r x y cpu.flags.carry s
    return after.setCarry carry
  | none => do
    let (_, carry) ←
      Register.sweep? (Register.serial? digit x y) s.positions cpu.flags.carry .zero
    return cpu.setCarry carry

/-- Adds an operand and the carry to a register. -/
def add? (dst : Option RegisterName) (src : RegisterName) (arg : Option RegisterName) (s : Span) :
    Option Processor :=
  cpu.sum? (Serial.addDigit cpu.base.radix) dst (cpu.register src) (cpu.operand arg) s

/-- Takes an operand and the carry from another one. -/
def subtract? (dst src arg : Option RegisterName) (s : Span) : Option Processor :=
  cpu.sum? (Serial.subtractDigit cpu.base.radix) dst (cpu.operand src) (cpu.operand arg) s

/-- Whether a register and an operand agree. -/
def agree? (r : RegisterName) (src : Option RegisterName) (s : Span) : Option Bool := do
  return (← (cpu.register r).slice? s) == (← (cpu.operand src).slice? s)

/-- Sets the carry if a register and an operand differ. -/
def testDifferent? (r : RegisterName) (src : Option RegisterName) (s : Span) :
    Option Processor := do
  return cpu.setCarry (!(← cpu.agree? r src s))

/-- Moves the digits of a span one place down and clears the carry. -/
def shiftRight? (r : RegisterName) (s : Span) : Option Processor := do
  let (x, _) ← Register.sweep? (Register.above? s.last) s.positions false (cpu.register r)
  return (cpu.setRegister r x).setCarry false

/-- Moves the digits of a span one place up and clears both carries. -/
def shiftLeft? (r : RegisterName) (s : Span) : Option Processor := do
  let (x, _) ← Register.sweep? (Register.below? s.first) s.positions.reverse false (cpu.register r)
  return (cpu.setRegister r x).clearCarries

/-- Applies an operation to a span. -/
def applyArithmetic? (op : ArithmeticOp) (s : Span) : Option Processor :=
  match op with
  | .clear r => cpu.copy? r none s
  | .copy dst src => cpu.copy? dst (some src) s
  | .exchange r₁ r₂ => cpu.exchange? r₁ r₂ s
  | .add dst src arg => cpu.add? (some dst) src (some arg) s
  | .subtract dst src arg => cpu.subtract? (some dst) (some src) (some arg) s
  | .increment r => (cpu.setCarry true).add? (some r) r none s
  | .decrement r => (cpu.setCarry true).subtract? (some r) (some r) none s
  | .negate r => cpu.subtract? (some r) none (some r) s
  | .negateDecrement r => (cpu.setCarry true).subtract? (some r) none (some r) s
  | .shiftLeft r => cpu.shiftLeft? r s
  | .shiftRight r => cpu.shiftRight? r s
  | .ifZero r => do return cpu.setCarry (← cpu.agree? r none s)
  | .ifNotZero r => cpu.testDifferent? r none s
  | .ifGreaterOrEqual r₁ r₂ => do
    let after ← cpu.subtract? none (some r₁) (some r₂) s
    return after.setCarry (!after.flags.carry)
  | .ifLess r₁ r₂ => cpu.subtract? none (some r₁) (some r₂) s
  | .ifNotEqual r₁ r₂ => cpu.testDifferent? r₁ (some r₂) s

section

variable {s : Span} (h : s.Inside)

include h

theorem zip?_eq (op : Nat → Nat → Nat) (dst : RegisterName) (x y : Register) :
    cpu.zip? op dst x y s = some (cpu.putDigits dst s (List.zipWith op (x.slice s) (y.slice s))) := by
  simp only [zip?, cpu.along?_eq _ dst x y false h, Serial.along_zipWith]
  rfl

/-- The second of two operands is taken over as it is. -/
theorem zip?_snd_eq (dst : RegisterName) (x y : Register) :
    cpu.zip? (fun _ y => y) dst x y s = some (cpu.putDigits dst s (y.slice s)) := by
  have hsnd : List.zipWith (fun _ y => y) (x.slice s) (y.slice s) = y.slice s := by
    apply List.ext_getElem <;> simp
  rw [cpu.zip?_eq h, hsnd]

theorem copy?_eq (dst : RegisterName) (src : Option RegisterName) :
    cpu.copy? dst src s = some (cpu.copy dst src s) :=
  cpu.zip?_snd_eq h dst _ _

/-- Both registers are read before the first one is written. -/
theorem exchange?_eq (r₁ r₂ : RegisterName) :
    cpu.exchange? r₁ r₂ s = some (cpu.exchange r₁ r₂ s) := by
  simp only [exchange?, zip?_snd_eq _ h, Option.bind_eq_bind, Option.bind_some]
  rfl

/-- Without a destination only the carry is kept. -/
theorem sum?_eq (digit : Nat → Nat → Bool → Nat × Bool) (dst : Option RegisterName)
    (x y : Register) :
    cpu.sum? digit dst x y s =
      some (cpu.takeResult dst s (Serial.along digit cpu.flags.carry (x.slice s) (y.slice s))) := by
  cases dst with
  | none =>
    simp only [sum?, Register.sweep?_serial digit x y _ h]
    rfl
  | some r =>
    simp only [sum?, cpu.along?_eq digit r x y _ h]
    rfl

theorem add?_eq (dst : Option RegisterName) (src : RegisterName) (arg : Option RegisterName) :
    cpu.add? dst src arg s = some (cpu.add dst src arg s) :=
  cpu.sum?_eq h _ dst _ _

theorem subtract?_eq (dst src arg : Option RegisterName) :
    cpu.subtract? dst src arg s = some (cpu.subtract dst src arg s) :=
  cpu.sum?_eq h _ dst _ _

theorem agree?_eq (r : RegisterName) (src : Option RegisterName) :
    cpu.agree? r src s = some ((cpu.register r).slice s == (cpu.operand src).slice s) := by
  simp only [agree?, Register.slice?_eq _ h]
  rfl

theorem testDifferent?_eq (r : RegisterName) (src : Option RegisterName) :
    cpu.testDifferent? r src s = some (cpu.testDifferent r src s) := by
  unfold testDifferent?
  rw [cpu.agree?_eq h]
  rfl

/-- Each digit comes from the place above, so the sweep goes up. -/
theorem shiftRight?_eq (r : RegisterName) : cpu.shiftRight? r s = some (cpu.shiftRight r s) := by
  unfold shiftRight?
  rw [Register.sweep?_above _ h]
  rfl

/-- Each digit comes from the place below, so the sweep goes down. -/
theorem shiftLeft?_eq (r : RegisterName) : cpu.shiftLeft? r s = some (cpu.shiftLeft r s) := by
  unfold shiftLeft?
  rw [Register.sweep?_below _ h]
  rfl

/-- **Within the register the adder does not trap.** -/
theorem applyArithmetic?_eq (op : ArithmeticOp) :
    cpu.applyArithmetic? op s = some (cpu.applyArithmetic op s) := by
  cases op with
  | clear r => exact cpu.copy?_eq h r none
  | copy dst src => exact cpu.copy?_eq h dst (some src)
  | exchange r₁ r₂ => exact cpu.exchange?_eq h r₁ r₂
  | add dst src arg => exact cpu.add?_eq h (some dst) src (some arg)
  | subtract dst src arg => exact cpu.subtract?_eq h (some dst) (some src) (some arg)
  | increment r => exact add?_eq _ h (some r) r none
  | decrement r => exact subtract?_eq _ h (some r) (some r) none
  | negate r => exact cpu.subtract?_eq h (some r) none (some r)
  | negateDecrement r => exact subtract?_eq _ h (some r) none (some r)
  | shiftLeft r => exact cpu.shiftLeft?_eq h r
  | shiftRight r => exact cpu.shiftRight?_eq h r
  | ifZero r =>
    unfold applyArithmetic?
    dsimp only
    rw [cpu.agree?_eq h]
    rfl
  | ifNotZero r => exact cpu.testDifferent?_eq h r none
  | ifGreaterOrEqual r₁ r₂ =>
    unfold applyArithmetic?
    dsimp only
    rw [cpu.subtract?_eq h]
    rfl
  | ifLess r₁ r₂ => exact cpu.subtract?_eq h none (some r₁) (some r₂)
  | ifNotEqual r₁ r₂ => exact cpu.testDifferent?_eq h r₁ (some r₂)

end

end Processor

end Calculator

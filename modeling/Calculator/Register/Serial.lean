/-
# Digit-serial arithmetic

The adder sees one digit of each operand at a time, the least significant first, and carries a
single bit to the next.  The functions here work on lists of digits, least significant first, as
`Register.slice` delivers them.  In decimal the operands may still hold digits past nine; the
adder corrects a sum once by the base and keeps four bits of what is left.
-/
import Calculator.Register

namespace Calculator

/-- The number base of the adder. -/
inductive Base where
  | decimal
  | hexadecimal
  deriving DecidableEq, Repr

/-- How many values a digit of the base has. -/
def Base.radix : Base → Nat
  | .decimal => 10
  | .hexadecimal => 16

namespace Serial

/-! ## 1. One digit -/

/-- The sum digit and the carry out of one position. -/
def addDigit (radix x y : Nat) (carry : Bool) : Nat × Bool :=
  let sum := x + y + carry.toNat
  if radix ≤ sum then ((sum - radix) % 16, true) else (sum % 16, false)

/-- The difference digit and the borrow out of one position. -/
def subtractDigit (radix x y : Nat) (borrow : Bool) : Nat × Bool :=
  let difference := (x : Int) - y - borrow.toNat
  if difference < 0 then (((difference + radix) % 16).toNat, true)
  else ((difference % 16).toNat, false)

/-! ## 2. Whole operands -/

/-- Runs a one-digit operation along two operands of equal length: the digits of the result and
the carry out of the last position. -/
def along (digit : Nat → Nat → Bool → Nat × Bool) : Bool → List Nat → List Nat → List Nat × Bool
  | carry, x :: xs, y :: ys =>
    let (d, carry) := digit x y carry
    let (ds, carry) := along digit carry xs ys
    (d :: ds, carry)
  | carry, _, _ => ([], carry)

/-- The digits of the sum and the carry out. -/
def add (radix : Nat) (carry : Bool) (xs ys : List Nat) : List Nat × Bool :=
  along (addDigit radix) carry xs ys

/-- The digits of the difference and the borrow out. -/
def subtract (radix : Nat) (borrow : Bool) (xs ys : List Nat) : List Nat × Bool :=
  along (subtractDigit radix) borrow xs ys

example : add 10 false [9, 9] [1, 0] = ([0, 0], true) := by decide
example : subtract 10 false [0, 0] [3, 0] = ([7, 9], true) := by decide

/-- A result has as many digits as the operands. -/
theorem length_along (digit : Nat → Nat → Bool → Nat × Bool) (carry : Bool) {xs ys : List Nat}
    (h : xs.length = ys.length) : (along digit carry xs ys).1.length = xs.length := by
  induction xs generalizing carry ys with
  | nil => simp [along]
  | cons x xs ih =>
    cases ys with
    | nil => simp at h
    | cons y ys => simp [along, ih _ (by simpa using h)]

/-! ## 3. Shifts and rotations -/

/-- Every digit one place up; a zero comes in at the bottom and the top digit is lost. -/
def shiftUp (ds : List Nat) : List Nat := (0 :: ds).dropLast

/-- Every digit one place down; a zero comes in at the top and the bottom digit is lost. -/
def shiftDown (ds : List Nat) : List Nat := (ds ++ [0]).tail

@[simp] theorem length_shiftUp (ds : List Nat) : (shiftUp ds).length = ds.length := by
  simp [shiftUp]

@[simp] theorem length_shiftDown (ds : List Nat) : (shiftDown ds).length = ds.length := by
  simp [shiftDown]

end Serial

namespace Register

/-- All fourteen digits one place up, the top one coming round to the bottom. -/
def rotateUp (r : Register) : Register := ⟨Vector.ofFn fun i => r.digit ((i + 13) % 14)⟩

/-- All fourteen digits one place down, the bottom one coming round to the top. -/
def rotateDown (r : Register) : Register := ⟨Vector.ofFn fun i => r.digit ((i + 1) % 14)⟩

end Register

end Calculator

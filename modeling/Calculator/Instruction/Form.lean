/-
# Word forms

The low two bits of a word give its form.  Three of the four forms mean much the same to every
family; the fourth holds all that is special to one.
-/
import Calculator.Text.Numeral

namespace Calculator

/-- A word taken apart by its form. -/
inductive WordForm where
  /-- What the family makes of it. -/
  | special (word : Nat)
  /-- A jump to a subroutine; on a Nut the first half of a long branch. -/
  | subroutine (word : Nat)
  /-- One of thirty-two operations on one of eight fields. -/
  | arithmetic (op field : Nat)
  /-- A branch on the carry. -/
  | branch (word : Nat)
  deriving DecidableEq, Repr

namespace WordForm

/-- The form of a word. -/
def ofWord (word : Nat) : WordForm :=
  match word % 4 with
  | 0 => .special word
  | 1 => .subroutine word
  | 2 => .arithmetic (word / 0x20 % 0x20) (word / 4 % 8)
  | _ => .branch word

/-- How a trace writes a form. -/
def text : WordForm → String
  | special word => "Special(" ++ Text.decimal 1 word ++ ")"
  | subroutine word => "Subroutine(" ++ Text.decimal 1 word ++ ")"
  | arithmetic op field =>
    "Arithmetic \x7b op: " ++ Text.decimal 1 op ++ ", field: " ++ Text.decimal 1 field ++ " \x7d"
  | branch word => "Branch(" ++ Text.decimal 1 word ++ ")"

end WordForm

end Calculator

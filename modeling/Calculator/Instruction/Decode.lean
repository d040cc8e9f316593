/-
# Decoding

`Instruction.decode` says what a word means to a calculator.  The forms other than the special one
are told apart here; the special words are left to the family.
-/
import Calculator.Instruction.Classic
import Calculator.Instruction.Form
import Calculator.Instruction.Nut
import Calculator.Instruction.Woodstock

namespace Calculator.Instruction

/-- The arithmetic operations of a family by code. -/
def arithmeticOps : Family → Vector ArithmeticOp 32
  | .classic => Classic.arithmeticOps
  | .woodstock => Woodstock.arithmeticOps
  | .nut => Nut.arithmeticOps

/-- The arithmetic operation of a code, of which the low five bits count. -/
def arithmeticOp (family : Family) (code : Nat) : ArithmeticOp :=
  (arithmeticOps family).get ⟨code % 32, Nat.mod_lt _ (by decide)⟩

/-- The distance of a relative branch: seven bits, the upper half of them backwards. -/
def branchOffset (word : Nat) : Int :=
  let n := word / 8
  if 0x40 ≤ n then (n : Int) - 0x80 else n

/-- The meaning of a word to a calculator. -/
def decode (hw : Hardware) (word : Nat) : Except Undecodable Instruction :=
  match WordForm.ofWord word with
  | .special word =>
    match hw.family with
    | .classic => Classic.special word
    | .woodstock => Woodstock.special hw.peripheral word
    | .nut => Nut.special word
  | .subroutine word =>
    match hw.family with
    | .nut => .ok (.flow (.longBranch (word / 4)))
    | _ => .ok (.flow (.call (word / 4)))
  | .arithmetic op field => .ok (.arithmetic (arithmeticOp hw.family op) (hw.field field))
  | .branch word =>
    match hw.family with
    | .nut => .ok (.flow (.branchBy (branchOffset word) (word / 4 % 2 = 1)))
    | _ => .ok (.flow (.branch (word / 4)))

end Calculator.Instruction

/-
# The Classic instruction set

The meaning of each word to a Classic part.
-/
import Calculator.Instruction

namespace Calculator.Instruction.Classic

/-- The arithmetic operations by code. -/
def arithmeticOps : Vector ArithmeticOp 32 := #v[
  .ifZero .b, .clear .b, .ifGreaterOrEqual .a .c, .ifNotZero .c,
  .copy .c .b, .negate .c, .clear .c, .negateDecrement .c,
  .shiftLeft .a, .copy .b .a, .subtract .c .a .c, .decrement .c,
  .copy .a .c, .ifZero .c, .add .c .a .c, .increment .c,
  .ifGreaterOrEqual .a .b, .exchange .b .c, .shiftRight .c, .ifNotZero .a,
  .shiftRight .b, .add .c .c .c, .shiftRight .a, .clear .a,
  .subtract .a .a .b, .exchange .a .b, .subtract .a .a .c, .decrement .a,
  .add .a .a .b, .exchange .a .c, .add .a .a .c, .increment .a]

/-- The moves and display instructions of class 10. -/
def registerClass : Nat → Except Undecodable Instruction
  | 0 => .ok (.control .toggleDisplay)
  | 2 => .ok (.move (.exchange .m .c))
  | 4 => .ok (.move .pushStack)
  | 6 => .ok (.move .popStack)
  | 8 => .ok (.control (.setDisplay false))
  | 10 => .ok (.move (.copy .c .m))
  | 12 => .ok (.move .rotateStack)
  | 14 => .ok (.move .clearRegisters)
  | _ => .error .undefined

/-- The meaning of a special word. -/
def special (word : Nat) : Except Undecodable Instruction :=
  let n := operand word
  match wordClass word with
  | 0 => if n = 0 then .ok .nop else .error .undefined
  | 1 => .ok (.status (.set n true))
  | 3 => .ok (.pointer (.set (n % 0x100)))
  | 4 => .ok (.flow (if n % 2 = 0 then .selectRom (n / 2) else .keysToRomAddress))
  | 5 => .ok (.status (.branchIf n false))
  | 6 => .ok (.digit (.loadConstant (n % 0x10)))
  | 7 => .ok (.pointer .decrement)
  | 9 => .ok (.status (.set n false))
  | 10 => registerClass n
  | 11 => .ok (.pointer (.branchIf n false))
  | 12 =>
    match n with
    | 0 => .ok (.flow .return)
    | 9 => .ok (.data .selectFromC)
    | 11 => .ok (.data .store)
    | _ => .error .undefined
  | 13 =>
    match n with
    | 0 => .ok (.status .clearAll)
    | 8 | 10 => .error .undefined
    | _ => .ok (.flow (.delayedSelectRom (n / 2)))
  | 14 => if n = 11 then .ok (.data .load) else .error .undefined
  | 15 => .ok (.pointer .increment)
  | _ => .error .undefined

end Calculator.Instruction.Classic

/-
# The Nut instruction set

The meaning of each word to a Nut.  Status bits, pointer values and rotation counts are named by a
scrambled operand.
-/
import Calculator.Instruction

namespace Calculator.Instruction.Nut

/-- The arithmetic operations by code. -/
def arithmeticOps : Vector ArithmeticOp 32 := #v[
  .clear .a, .clear .b, .clear .c, .exchange .a .b,
  .copy .b .a, .exchange .a .c, .copy .c .b, .exchange .b .c,
  .copy .a .c, .add .a .a .b, .add .a .a .c, .increment .a,
  .subtract .a .a .b, .decrement .a, .subtract .a .a .c, .add .c .c .c,
  .add .c .a .c, .increment .c, .subtract .c .a .c, .decrement .c,
  .negate .c, .negateDecrement .c, .ifNotZero .b, .ifNotZero .c,
  .ifLess .a .c, .ifLess .a .b, .ifNotZero .a, .ifNotEqual .a .c,
  .shiftRight .a, .shiftRight .b, .shiftRight .c, .shiftLeft .a]

/-- What a scrambled operand stands for. -/
def operandValues : Vector Nat 16 := #v[3, 4, 5, 10, 8, 6, 11, 15, 2, 9, 7, 13, 1, 12, 0, 15]

/-- A class of instructions with a scrambled operand: operand 7 is undefined and operand 15 has a
meaning of its own. -/
def scrambled (n : Nat) (own : Instruction) (numbered : Nat → Instruction) :
    Except Undecodable Instruction :=
  match n with
  | 7 => .error .undefined
  | 15 => .ok own
  | _ => (lookUp operandValues n).map numbered

/-- The transfers of class 6 between `c`, `m`, g and the status bits. -/
def transferClass : Nat → Except Undecodable Instruction
  | 1 => .ok (.digit .gFromC)
  | 2 => .ok (.digit .cFromG)
  | 3 => .ok (.digit .exchangeCG)
  | 5 => .ok (.move (.copy .m .c))
  | 6 => .ok (.move (.copy .c .m))
  | 7 => .ok (.move (.exchange .c .m))
  | 14 => .ok (.status .toC)
  | 15 => .ok (.status .exchangeC)
  | _ => .error .undefined

/-- The power, pointer selection and return instructions of class 8.  Operand 5 tests a battery
that is never low. -/
def controlClass : Nat → Except Undecodable Instruction
  | 1 => .ok (.control .powerOff)
  | 2 => .ok (.pointer (.select .p))
  | 3 => .ok (.pointer (.select .q))
  | 4 => .ok (.pointer .testPair)
  | 5 => .ok .nop
  | 6 => .ok (.move .clearArithmetic)
  | 7 => .ok (.flow .goToC)
  | 8 => .ok (.digit .keysToC)
  | 9 => .ok (.control (.setBase .hexadecimal))
  | 10 => .ok (.control (.setBase .decimal))
  | 11 => .ok (.control (.setDisplay false))
  | 12 => .ok (.control .toggleDisplay)
  | 13 => .ok (.flow (.returnIf true))
  | 14 => .ok (.flow (.returnIf false))
  | 15 => .ok (.flow .return)
  | _ => .error .undefined

/-- The instructions of class 12.  Operand 0 would make the display blink; here it only turns it
on. -/
def memoryClass : Nat → Except Undecodable Instruction
  | 0 => .ok (.control (.setDisplay true))
  | 1 => .ok (.move (.copy .n .c))
  | 2 => .ok (.move (.copy .c .n))
  | 3 => .ok (.move (.exchange .c .n))
  | 4 => .ok (.digit .loadImmediate)
  | 5 => .ok (.flow .pushC)
  | 6 => .ok (.flow .popC)
  | 9 => .ok (.data .selectFromC)
  | 11 => .ok (.data .store)
  | 12 => .ok (.digit .readRom)
  | 13 => .ok (.move .orWithA)
  | 14 => .ok (.move .andWithA)
  | _ => .error .undefined

/-- The meaning of a special word. -/
def special (word : Nat) : Except Undecodable Instruction :=
  let n := operand word
  match wordClass word with
  | 0 => if n = 0 then .ok .nop else .error .undefined
  | 1 => scrambled n (.status .clearLow) fun i => .status (.set i false)
  | 2 => scrambled n (.status .resetKeyboard) fun i => .status (.set i true)
  | 3 => scrambled n (.status .testKeyboard) fun i => .status (.test i)
  | 4 => .ok (.digit (.loadConstant (n % 0x10)))
  | 5 => scrambled n (.pointer .decrement) fun i => .pointer (.test i)
  | 6 => transferClass n
  | 7 => scrambled n (.pointer .increment) fun i => .pointer (.set i)
  | 8 => controlClass n
  | 10 => .ok (.data (.storeAt n))
  | 12 => memoryClass n
  | 14 => .ok (.data (if n = 0 then .load else .loadAt n))
  | 15 => (lookUp operandValues n).map fun i => .control (.rotateRightC i)
  | _ => .error .undefined

end Calculator.Instruction.Nut

/-
# The Woodstock instruction set

The meaning of each word to a Woodstock or Spice part.  The printer and the card reader have their
instructions in corners that the other parts leave undefined.
-/
import Calculator.Instruction

namespace Calculator.Instruction.Woodstock

/-- The arithmetic operations by code. -/
def arithmeticOps : Vector ArithmeticOp 32 := #v[
  .clear .a, .clear .b, .exchange .a .b, .copy .b .a,
  .exchange .a .c, .copy .a .c, .copy .c .b, .exchange .b .c,
  .clear .c, .add .a .a .b, .add .a .a .c, .add .c .c .c,
  .add .c .a .c, .increment .a, .shiftLeft .a, .increment .c,
  .subtract .a .a .b, .subtract .c .a .c, .decrement .a, .decrement .c,
  .negate .c, .negateDecrement .c, .ifZero .b, .ifZero .c,
  .ifGreaterOrEqual .a .c, .ifGreaterOrEqual .a .b, .ifNotZero .a, .ifNotZero .c,
  .subtract .a .a .c, .shiftRight .a, .shiftRight .b, .shiftRight .c]

/-- The pointer values that an operand sets. -/
def setPointerValues : Vector Nat 16 := #v[14, 4, 7, 8, 11, 2, 10, 12, 1, 3, 13, 6, 0, 9, 5, 14]

/-- The pointer values that an operand tests for. -/
def testPointerValues : Vector Nat 16 := #v[4, 8, 12, 2, 9, 1, 6, 3, 1, 13, 5, 0, 11, 10, 7, 4]

/-- The card reader instructions of class 0. -/
def cardClass : Nat → Except Undecodable Instruction
  | 1 => .ok (.card .eject)
  | 3 => .ok (.card .testRun)
  | 4 => .ok (.card (.set .anyKey))
  | 5 => .ok (.card (.take .anyKey))
  | 8 => .ok (.card (.set .function))
  | 9 => .ok (.card (.take .function))
  | 10 => .ok (.card (.set .merge))
  | 11 => .ok (.card (.take .merge))
  | 12 => .ok (.card (.set .pause))
  | 13 | 15 => .ok (.card (.take .pause))
  | _ => .error .undefined

/-- The card reader instructions of class 12. -/
def cardDisplayClass : Nat → Except Undecodable Instruction
  | 0 => .ok (.card (.set .display))
  | 1 => .ok (.card (.take .display))
  | 5 => .ok (.card .testCard)
  | 2 | 3 | 6 | 7 => .ok (.card .idle)
  | _ => .error .undefined

/-- The printer instructions of class 4. -/
def printerClass : Nat → Except Undecodable Instruction
  | 9 | 10 => .ok (.printer .printLine)
  | 11 => .ok (.printer .printLineAndPoll)
  | 15 => .ok (.printer .numeric)
  | _ => .error .undefined

/-- The instructions of class 4. -/
def flowClass (peripheral : Peripheral) (n : Nat) : Except Undecodable Instruction :=
  match n with
  | 0 => .ok (.flow .keysToRomAddress)
  | 1 => .ok (.digit .keysToA)
  | 2 => .ok (.flow .aToRomAddress)
  | 3 => .ok .nop
  | 4 => .ok (.control (.setBase .hexadecimal))
  | 5 => .ok (.control .rotateLeftA)
  | 6 => .ok (.pointer .decrement)
  | 7 => .ok (.pointer .increment)
  | 8 => .ok (.flow .return)
  | _ => if peripheral = .printer then printerClass n else .error .undefined

/-- The instructions of class 12. -/
def dataClass (peripheral : Peripheral) (n : Nat) : Except Undecodable Instruction :=
  match n with
  | 8 => .ok (.flow .bankSwitch)
  | 9 => .ok (.data .selectFromC)
  | 10 => .ok (.data .clear)
  | 11 => .ok (.data .store)
  | 12 => .ok (.flow .romChecksum)
  | 15 => .ok .nop
  | _ =>
    match peripheral with
    | .cardReader => cardDisplayClass n
    | .printer => if n = 14 then .ok (.printer .alpha) else .error .undefined
    | .none => .error .undefined

/-- The moves, display and small register instructions of class 2. -/
def registerClass : Nat → Except Undecodable Instruction
  | 0 => .ok (.move .clearRegisters)
  | 1 => .ok (.status .clearFree)
  | 2 => .ok (.control .toggleDisplay)
  | 3 => .ok (.control (.setDisplay false))
  | 4 => .ok (.move (.exchange .m .c))
  | 5 => .ok (.move (.copy .c .m))
  | 6 => .ok (.move (.exchange .n .c))
  | 7 => .ok (.move (.copy .c .n))
  | 8 => .ok (.move .popStack)
  | 9 => .ok (.move .rotateStack)
  | 10 => .ok (.move (.copy .a .y))
  | 11 => .ok (.move .pushStack)
  | 12 => .ok (.control (.setBase .decimal))
  | 14 => .ok (.digit .fToA)
  | 15 => .ok (.digit .exchangeFA)
  | _ => .error .undefined

/-- The meaning of a special word. -/
def special (peripheral : Peripheral) (word : Nat) : Except Undecodable Instruction :=
  let n := operand word
  match wordClass word with
  | 0 =>
    if n = 0 then .ok .nop
    else if peripheral = .cardReader then cardClass n else .error .undefined
  | 1 => .ok (.status (.set n true))
  | 2 => registerClass n
  | 3 => .ok (.status (.set n false))
  | 4 => flowClass peripheral n
  | 5 => .ok (.status (.branchIf n true))
  | 6 => .ok (.digit (.loadConstant (n % 0x10)))
  | 7 => .ok (.status (.branchIf n false))
  | 8 => .ok (.flow (.selectRom n))
  | 9 => (lookUp testPointerValues n).map fun v => .pointer (.branchIf v true)
  | 10 => .ok (.data (.storeAt n))
  | 11 => (lookUp testPointerValues n).map fun v => .pointer (.branchIf v false)
  | 12 => dataClass peripheral n
  | 13 => .ok (.flow (.delayedSelectRom n))
  | 14 => .ok (.data (if n = 0 then .load else .loadAt n))
  | _ => (lookUp setPointerValues n).map fun v => .pointer (.set v)

end Calculator.Instruction.Woodstock

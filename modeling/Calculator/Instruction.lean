/-
# Instructions

The instructions of all three families, grouped by what they work on.  A word means one of these
to its family or nothing at all; which one is said in `Instruction/Classic`, `Instruction/Woodstock`
and `Instruction/Nut`, and what each does in `Execution`.
-/
import Calculator.ArithmeticOp

namespace Calculator

/-- Moves between whole registers. -/
inductive Move where
  /-- Clears all registers but `m` and `n`. -/
  | clearRegisters
  /-- Clears `a`, `b` and `c`. -/
  | clearArithmetic
  | copy (dst src : RegisterName)
  | exchange (r₁ r₂ : RegisterName)
  /-- `c` goes onto the stack `y`, `z`, `t`. -/
  | pushStack
  /-- The stack comes down into `a`. -/
  | popStack
  /-- `c`, `y`, `z` and `t` change places in a ring. -/
  | rotateStack
  | orWithA
  | andWithA
  deriving DecidableEq, Repr

/-- Instructions on single digits of a register, and on the small registers f and g. -/
inductive DigitOp where
  /-- A digit goes to `c` at the pointer, and the pointer counts down. -/
  | loadConstant (digit : Nat)
  /-- The key code, or on a printing model the switch position, goes to `a`. -/
  | keysToA
  /-- The key code goes to `c[4:3]`. -/
  | keysToC
  | fToA
  | exchangeFA
  /-- Two digits at the pointer between `c` and g. -/
  | gFromC
  | cFromG
  | exchangeCG
  /-- The next word goes to `c[2:0]`. -/
  | loadImmediate
  /-- The word at the address in `c[6:3]` goes to `c[2:0]`. -/
  | readRom
  deriving DecidableEq, Repr

/-- Instructions on the status bits. -/
inductive StatusOp where
  | set (bit : Nat) (value : Bool)
  /-- Clears all bits. -/
  | clearAll
  /-- Clears all bits but those that the hardware sets. -/
  | clearFree
  /-- Clears s0 to s7. -/
  | clearLow
  /-- Leaves a bit in the carry. -/
  | test (bit : Nat)
  /-- Tests a bit for a value, and goes to the address that follows. -/
  | branchIf (bit : Nat) (value : Bool)
  /-- s0 to s7 go to `c[1:0]`. -/
  | toC
  | exchangeC
  /-- Leaves the keyboard flag in the carry. -/
  | testKeyboard
  /-- Clears the keyboard flag, if the key was released. -/
  | resetKeyboard
  deriving DecidableEq, Repr

/-- Instructions on the pointers. -/
inductive PointerOp where
  | set (value : Nat)
  | increment
  | decrement
  | select (pointer : Pointer)
  /-- Tests P against a value for equality or difference, and goes to the address that follows. -/
  | branchIf (value : Nat) (equal : Bool)
  /-- Leaves in the carry whether the active pointer has a value. -/
  | test (value : Nat)
  /-- Sets the carry if P and Q agree. -/
  | testPair
  deriving DecidableEq, Repr

/-- Instructions that move the program counter. -/
inductive FlowOp where
  /-- A subroutine within the page. -/
  | call (target : Address)
  | return
  | returnIf (carry : Bool)
  /-- A branch within the page, taken without carry. -/
  | branch (target : Address)
  /-- A branch by an offset from the instruction itself. -/
  | branchBy (offset : Int) (carry : Bool)
  /-- A branch whose next word has the upper half of the address and the condition. -/
  | longBranch (low : Address)
  | selectRom (number : Nat)
  | delayedSelectRom (number : Nat)
  | keysToRomAddress
  | aToRomAddress
  | bankSwitch
  /-- Ends the self test of a ROM. -/
  | romChecksum
  /-- Goes to the address in `c[6:3]`. -/
  | goToC
  /-- The address in `c[6:3]` goes onto the return stack. -/
  | pushC
  | popC
  deriving DecidableEq, Repr

/-- Instructions on the data registers. -/
inductive DataOp where
  /-- Sets the data address from `c`. -/
  | selectFromC
  /-- `c` goes to the selected data register. -/
  | store
  /-- Selects a register within the block of sixteen, and stores `c` there. -/
  | storeAt (n : Nat)
  /-- The selected data register goes to `c`. -/
  | load
  /-- Selects a register within the block of sixteen, and loads it. -/
  | loadAt (n : Nat)
  /-- Clears the block of sixteen. -/
  | clear
  deriving DecidableEq, Repr

/-- Instructions on the adder, the display and the power. -/
inductive ControlOp where
  | setBase (base : Base)
  | rotateLeftA
  | rotateRightC (n : Nat)
  | toggleDisplay
  | setDisplay (on : Bool)
  | powerOff
  deriving DecidableEq, Repr

/-- Instructions of the card reader controller. -/
inductive CardOp where
  /-- No card is inserted. -/
  | eject
  /-- Leaves in s3 whether a card is inserted. -/
  | testCard
  /-- Leaves in s3 whether the program switch stands at run. -/
  | testRun
  | set (flag : CardFlag)
  /-- Leaves a flag in s3 and clears it. -/
  | take (flag : CardFlag)
  /-- Moves a card that is not there. -/
  | idle
  deriving DecidableEq, Repr

/-- Instructions of the printer. -/
inductive PrinterOp where
  | printLine
  /-- Prints the line, and tells in s3 whether a key is held. -/
  | printLineAndPoll
  | numeric
  | alpha
  deriving DecidableEq, Repr

/-- An instruction of any family. -/
inductive Instruction where
  | nop
  /-- An arithmetic operation on a field; a test goes to the address that follows, save on a Nut. -/
  | arithmetic (op : ArithmeticOp) (field : Field)
  | move (m : Move)
  | digit (d : DigitOp)
  | status (s : StatusOp)
  | pointer (p : PointerOp)
  | flow (f : FlowOp)
  | data (d : DataOp)
  | control (c : ControlOp)
  | card (c : CardOp)
  | printer (p : PrinterOp)
  deriving DecidableEq, Repr

/-- Why a word is no instruction. -/
inductive Undecodable where
  /-- The family leaves the word undefined. -/
  | undefined
  /-- The operand is past the table that it indexes; no ten bit word has such an operand. -/
  | operandTooWide
  deriving DecidableEq, Repr

namespace Instruction

/-- The class of a special word, which with the operand decides what it means. -/
def wordClass (word : Nat) : Nat := word / 4 % 0x10

/-- The operand of a special word. -/
def operand (word : Nat) : Nat := word / 0x40

/-- Looks an operand up in a table. -/
def lookUp (table : Vector Nat 16) (n : Nat) : Except Undecodable Nat :=
  match table[n]? with
  | some v => .ok v
  | none => .error .operandTooWide

end Instruction

end Calculator

/-
# Moves and digits

Instructions that move whole registers about, and those that work on single digits of `c` and `a`.
-/
import Calculator.Execution.Pointers

namespace Calculator.Processor

/-! ## 1. Whole registers -/

/-- Copies a register as a whole. -/
def copyWord (cpu : Processor) (dst src : RegisterName) : Processor := cpu.copy dst (some src) .word

/-- Clears a register. -/
def clearWord (cpu : Processor) (r : RegisterName) : Processor := cpu.copy r none .word

/-- Executes a move. -/
def runMove (cpu : Processor) : Move → Processor
  | .clearRegisters => (RegisterName.all.filter RegisterName.isVolatile).foldl clearWord cpu
  | .clearArithmetic => [.a, .b, .c].foldl clearWord cpu
  | .copy dst src => cpu.copyWord dst src
  | .exchange r₁ r₂ => cpu.exchange r₁ r₂ .word
  | .pushStack => ((cpu.copyWord .t .z).copyWord .z .y).copyWord .y .c
  | .popStack => ((cpu.copyWord .a .y).copyWord .y .z).copyWord .z .t
  | .rotateStack =>
    ((cpu.exchange .t .c .word).exchange .c .y .word).exchange .y .z .word
  | .orWithA => cpu.bitwiseOr .c .c (some .a) .word
  | .andWithA => cpu.bitwiseAnd .c .c (some .a) .word

/-! ## 2. Single digits -/

/-- Replaces digits of a register from position `lo` up. -/
def putFrom (cpu : Processor) (r : RegisterName) (lo : Nat) (ds : List Nat) : Processor :=
  cpu.putDigits r ⟨lo, lo + ds.length - 1⟩ ds

/-- The three digits of `c` that a ROM word fills. -/
def wordDigits (word : Nat) : List Nat := [word % 0x10, word / 0x10 % 0x10, word / 0x100 % 0x10]

/-- Puts a digit into `c` at the pointer and counts the pointer down.  A pointer past the register
is taken for its last digit. -/
def loadConstant (cpu : Processor) (digit : Nat) : Outcome :=
  let pt := cpu.pointer
  if pt < 14 then .done (cpu.putFrom .c pt [digit]).decrementPointer
  else
    .warn (cpu.putFrom .c 13 [digit]).decrementPointer (.pointerClamped cpu.last pt)

/-- The key code goes to `a[2:1]`.  With a printer it is the position of the print switch that goes
to `a[1]`. -/
def keysToA (cpu : Processor) : Processor :=
  match cpu.printer with
  | some printer => cpu.putFrom .a 1 [printer.mode.code]
  | none => cpu.putFrom .a 1 [cpu.keyboard.code % 0x10, cpu.keyboard.code / 0x10]

/-! ## 3. The register g

It meets the digit of `c` at the pointer and the one above it, if there is one. -/

/-- What g becomes when it takes the digits of `c` at the pointer. -/
def gTaken (cpu : Processor) (pt : Nat) : Nat × Nat :=
  let c := cpu.register .c
  (c.digit pt, if pt < 13 then c.digit (pt + 1) else cpu.g.2)

/-- Puts g into the digits of `c` at the pointer. -/
def putG (cpu : Processor) (pt : Nat) : Processor :=
  cpu.putFrom .c pt (if pt < 13 then [cpu.g.1, cpu.g.2] else [cpu.g.1])

/-- Does something at the pointer, which must stand within the register. -/
def atPointer (cpu : Processor) (act : Nat → Processor) : Outcome :=
  if cpu.pointer < 14 then .done (act cpu.pointer)
  else .fail cpu (.pointerOutOfRange cpu.last cpu.pointer)

/-- Exchanges g with the digits of `c` at the pointer.  At the top digit there is only one, and the
upper digit of g becomes zero. -/
def exchangeG (cpu : Processor) (pt : Nat) : Processor :=
  let c := cpu.register .c
  { cpu.putG pt with g := (c.digit pt, if pt < 13 then c.digit (pt + 1) else 0) }

/-! ## 4. Instructions -/

/-- Executes an instruction on digits. -/
def runDigit (cpu : Processor) : DigitOp → Outcome
  | .loadConstant digit => cpu.loadConstant digit
  | .keysToA => .done cpu.keysToA
  | .keysToC =>
    .done (cpu.putFrom .c 3 [cpu.keyboard.code % 0x10, cpu.keyboard.code / 0x10])
  | .fToA => .done (cpu.putFrom .a 0 [cpu.f])
  | .exchangeFA => .done { cpu.putFrom .a 0 [cpu.f] with f := (cpu.register .a).digit 0 }
  | .gFromC => cpu.atPointer fun pt => { cpu with g := cpu.gTaken pt }
  | .cFromG => cpu.atPointer cpu.putG
  | .exchangeCG => cpu.atPointer cpu.exchangeG
  | .loadImmediate =>
    match cpu.fetch cpu.pc with
    | .error f => .fail cpu f
    | .ok word => .done (cpu.putFrom .c 0 (wordDigits word)).advance
  | .readRom =>
    let a := (cpu.register .c).address 3
    match cpu.rom.word? a with
    | some word => .done (cpu.putFrom .c 0 (wordDigits word))
    | none => .warn cpu (.invalidAddress cpu.last a)

end Calculator.Processor

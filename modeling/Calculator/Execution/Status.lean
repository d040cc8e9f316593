/-
# Status bits

Instructions that set, clear and test status bits.  Naming a bit that the part does not have is
told to the host; such a bit reads as false.
-/
import Calculator.Execution.Registers

namespace Calculator.Processor

/-! ## 1. Single bits -/

/-- Sets or clears a status bit of the part. -/
def putStatus (cpu : Processor) (bit : Nat) (value : Bool) : Outcome :=
  if bit < cpu.hardware.statusBits then .done (cpu.setBit bit value)
  else .warn cpu (.invalidStatusBit cpu.last bit)

/-- The value of a status bit, false if the part does not have it. -/
def readStatus (cpu : Processor) (bit : Nat) : Bool :=
  if bit < cpu.hardware.statusBits then cpu.bit bit else false

/-- What reading a status bit tells the host. -/
def statusEvents (cpu : Processor) (bit : Nat) : List Event :=
  if bit < cpu.hardware.statusBits then [] else [.warned (.invalidStatusBit cpu.last bit)]

/-! ## 2. Several bits -/

/-- The bits that the hardware sets and a clear leaves alone.  A printing model has no use for s5
and clears it too. -/
def keptBits (cpu : Processor) : List Nat :=
  if cpu.printer.isSome then [1, 2, 15] else [1, 2, 5, 15]

/-- Clears the bits for which `keep` fails. -/
def clearBits (cpu : Processor) (keep : Nat → Bool) : Processor :=
  { cpu with status := Vector.ofFn fun i => cpu.status[i] && keep i }

/-- s0 to s7 as two digits, the lower one first. -/
def statusDigits (cpu : Processor) : List Nat :=
  [bitsValue ([0, 1, 2, 3].map cpu.bit), bitsValue ([4, 5, 6, 7].map cpu.bit)]

/-- Sets s0 to s7 from two digits. -/
def putStatusDigits (cpu : Processor) (low high : Nat) : Processor :=
  { cpu with
    status := Vector.ofFn fun i =>
      if i.val < 4 then low.testBit i
      else if i.val < 8 then high.testBit (i - 4)
      else cpu.status[i] }

/-! ## 3. Instructions -/

/-- Executes an instruction on the status bits. -/
def runStatus (cpu : Processor) : StatusOp → Outcome
  | .set bit value => cpu.putStatus bit value
  | .clearAll => .done (cpu.clearBits fun _ => false)
  | .clearFree => .done (cpu.clearBits fun i => cpu.keptBits.contains i)
  | .clearLow => .done (cpu.clearBits fun i => 8 ≤ i)
  | .test bit => (Outcome.done (cpu.setCarry (cpu.readStatus bit))).after (cpu.statusEvents bit)
  | .branchIf bit value =>
    (cpu.testAndGo (cpu.readStatus bit == value)).after (cpu.statusEvents bit)
  | .toC => .done (cpu.putFrom .c 0 cpu.statusDigits)
  | .exchangeC =>
    let c := cpu.register .c
    .done ((cpu.putStatusDigits (c.digit 0) (c.digit 1)).putFrom .c 0 cpu.statusDigits)
  | .testKeyboard => .done (cpu.setCarry cpu.keyboard.flag)
  | .resetKeyboard =>
    .done <|
      if cpu.keyboard.pressed then cpu
      else { cpu.setCarry false with keyboard := { cpu.keyboard with flag := false } }

end Calculator.Processor

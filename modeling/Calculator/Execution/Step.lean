/-
# One step

`Processor.tick` executes one word: it latches the inputs, fetches the word at the program counter,
moves on, and does what the word means.  A processor that is off or asleep does nothing at all.
Where the fetch fails nothing has happened but the latching.
-/
import Calculator.Execution.Memory
import Calculator.Execution.Peripherals
import Calculator.Execution.Status
import Calculator.Instruction.Decode

namespace Calculator.Processor

/-! ## 1. Inputs -/

/-- Sets a status bit if a condition holds. -/
def raise (cpu : Processor) (bit : Nat) (condition : Bool) : Processor :=
  if condition then cpu.setBit bit true else cpu

/-- Latches the key and the switches the way the hardware does. -/
def latchInputs (cpu : Processor) : Processor :=
  let key := cpu.keyboard.pressed
  let program := cpu.switches.program
  match cpu.hardware.inputs with
  | .classic => ((cpu.raise 0 key).raise 3 program).raise 11 cpu.switches.timer
  | .woodstock => ((cpu.raise 15 key).raise 3 program).setBit 5 true
  | .spice => ((cpu.raise 15 key).raise 3 program).setBit 5 false
  | .hp67 => { cpu.raise 15 key with flags := { cpu.flags with mode := program } }
  | .nut => { cpu with keyboard := { cpu.keyboard with flag := key || cpu.keyboard.flag } }
  | .none => cpu

/-! ## 2. Execution -/

/-- Executes an arithmetic instruction.  On all parts but the Nut a test goes on to the address in
the next word. -/
def runArithmetic (cpu : Processor) (op : ArithmeticOp) (field : Field) : Outcome :=
  match cpu.spanOf? field with
  | .error f => .fail cpu f
  | .ok s =>
    let after := cpu.applyArithmetic op s
    let outcome :=
      if op.isTest ∧ cpu.hardware.family ≠ .nut then after.testAndGo after.flags.carry
      else .done after
    outcome.after (if cpu.switches.trace then [.selected op field] else [])

/-- Executes an instruction. -/
def run (cpu : Processor) : Instruction → Outcome
  | .nop => .done cpu
  | .arithmetic op field => cpu.runArithmetic op field
  | .move m => .done (cpu.runMove m)
  | .digit d => cpu.runDigit d
  | .status s => cpu.runStatus s
  | .pointer p => cpu.runPointer p
  | .flow f => cpu.runFlow f
  | .data d => cpu.runData d
  | .control c => .done (cpu.runControl c)
  | .card c => .done (cpu.runCard c)
  | .printer p => cpu.runPrinter p

/-- Executes a word, if it is an instruction. -/
def execute (cpu : Processor) (word : Nat) : Outcome :=
  match Instruction.decode cpu.hardware word with
  | .ok instruction => cpu.run instruction
  | .error .undefined => .fail cpu (.unexpectedOpcode cpu.last word)
  | .error .operandTooWide => .fail cpu (.outOfBounds cpu.last)

/-! ## 3. The step -/

/-- Whether the processor executes anything at all. -/
def isRunning (cpu : Processor) : Bool := cpu.enabled && !cpu.sleeping

/-- The processor once it has fetched a word: the word's address is remembered and the program
counter moved on. -/
def fetched (cpu : Processor) : Processor := { cpu with last := cpu.pc }.advance

/-- Executes one word. -/
def tick (cpu : Processor) : Outcome :=
  if cpu.isRunning then
    let latched := cpu.latchInputs
    match latched.fetch latched.pc with
    | .error f => .fail latched f
    | .ok word =>
      let ready := latched.fetched
      let outcome := ready.execute word
      { outcome with cpu := { outcome.cpu with opcode := word } }.after
        (if ready.switches.trace then [.fetched word ready] else [])
  else .done cpu

end Calculator.Processor

/-
# Pointers

How the pointers count, and the instructions that set and test them.  Counting up is where the
families differ most (`PointerStyle`).  A pointer has eight bits; one that is let count past the
register can in the end run out of them.
-/
import Calculator.Execution.Flow

namespace Calculator.Processor

/-! ## 1. Counting -/

/-- One above a pointer of eight bits. -/
def countUp (cpu : Processor) (n : Nat) : Except Fault Nat :=
  if n < 0xff then .ok (n + 1) else .error (.outOfBounds cpu.last)

/-- The pointer after counting up.  In the style of Spice and Nut a pointer at zero moves only if
the word before `pc` differs from the word that ran last, so of a run of equal instructions the
first one moves it and the others leave it alone. -/
def nextPointer (cpu : Processor) : Except Fault Nat :=
  match cpu.hardware.pointer with
  | .masked => .ok ((cpu.p + 1) % 0x10)
  | .wrapping => if cpu.p = 14 then .ok 0 else cpu.countUp cpu.p
  | .previousOpcode =>
    let pt := cpu.pointer
    if pt = 13 then .ok 0
    else if 0 < pt then cpu.countUp pt
    else if cpu.rom.word? ((cpu.pc + 0xffff) % 0x10000) = some cpu.opcode then .ok 0
    else .ok 1

/-- Counts the pointer up. -/
def incrementPointer (cpu : Processor) : Outcome :=
  match cpu.nextPointer with
  | .ok n => .done (cpu.setPointer n)
  | .error f => .fail cpu f

/-- Counts the pointer down. -/
def decrementPointer (cpu : Processor) : Processor :=
  let pt := cpu.pointer
  match cpu.hardware.pointer with
  | .masked => cpu.setPointer ((pt + 0xf) % 0x10)
  | _ => cpu.setPointer (if pt = 0 then 13 else pt - 1)

/-! ## 2. Instructions -/

/-- Executes an instruction on the pointers. -/
def runPointer (cpu : Processor) : PointerOp → Outcome
  | .set value => .done (cpu.setPointer value)
  | .increment => cpu.incrementPointer
  | .decrement => .done cpu.decrementPointer
  | .select pointer => .done { cpu with active := pointer }
  | .branchIf value equal => cpu.testAndGo ((cpu.p == value) == equal)
  | .test value => .done (cpu.setCarry (cpu.pointer == value))
  | .testPair => .done (if cpu.p = cpu.q then cpu.setCarry true else cpu)

end Calculator.Processor

/-
# The emulator

A processor together with a count of the instructions that it has executed.  `Emulator.run` executes
a budget of instructions and says why it stopped; splitting a budget makes no difference.
-/
import Calculator.Execution.Step
import Calculator.Host
import Calculator.Record
import Calculator.Rom.Listing

namespace Calculator

/-- A processor that has executed some number of instructions. -/
structure Emulator where
  cpu : Processor
  instructions : Nat

/-- Why a run ended without a fault. -/
inductive Halt where
  /-- The budget was used up. -/
  | budget
  /-- The processor sleeps with its display on. -/
  | sleeping
  /-- The processor is off. -/
  | poweredOff
  deriving DecidableEq, Repr

/-- Why the processor executes nothing, if it does not. -/
def Processor.halted? (cpu : Processor) : Option Halt :=
  if !cpu.enabled then some .poweredOff
  else if cpu.sleeping then some .sleeping
  else none

namespace Emulator

/-! ## 1. Building -/

/-- An emulator for a model with an image.  A saved record is restored if the model has continuous
memory; one that holds no readable field is told to the host. -/
def new (model : Model) (rom : Rom) (record : Option (List UInt8)) : Emulator × List Event :=
  let cpu := Processor.new model rom
  match record with
  | none => (⟨cpu, 0⟩, [])
  | some bytes =>
    let restored := Record.read cpu bytes
    let unreadable :=
      cpu.hardware.continuous && restored.count == 0 && !bytes.isEmpty
    (⟨restored.cpu, 0⟩, restored.events ++ if unreadable then [.unreadableRecord model] else [])

/-- An emulator for a model with the image that a listing gives. -/
def ofListing (model : Model) (listing : List UInt8) (record : Option (List UInt8)) :
    Except InputError (Emulator × List Event) :=
  let patch := Rom.load model listing
  match patch.error? with
  | some e => .error e
  | none =>
    let (emulator, events) := new model patch.rom record
    .ok (emulator, patch.warnings.toList.map Event.warned ++ events)

/-! ## 2. Running -/

/-- What comes of a run. -/
structure RunOutcome where
  emulator : Emulator
  /-- The events of the run, in order. -/
  events : Array Event
  result : Except Fault Halt

/-- Executes up to `budget` instructions, adding to the events so far. -/
def runFrom (events : Array Event) (e : Emulator) : Nat → RunOutcome
  | 0 => ⟨e, events, .ok (e.cpu.halted?.getD .budget)⟩
  | budget + 1 =>
    match e.cpu.halted? with
    | some halt => ⟨e, events, .ok halt⟩
    | none =>
      let outcome := e.cpu.tick
      let events := events ++ outcome.events
      match outcome.fault with
      | some f => ⟨{ e with cpu := outcome.cpu }, events, .error f⟩
      | none => runFrom events ⟨outcome.cpu, e.instructions + 1⟩ budget

/-- Executes up to `budget` instructions.  A run ends early when the processor goes to sleep or
off, or with the fault of an instruction. -/
def run (e : Emulator) (budget : Nat) : RunOutcome := runFrom #[] e budget

end Emulator

end Calculator

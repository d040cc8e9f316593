/-
# Events and outcomes

What running a processor tells the host beside the new state: warnings, the lines of a trace, and
the fault that stopped an instruction.  An `Outcome` keeps the state also when there is a fault,
for the host may go on from it.  Events stand in the order in which they happened.
-/
import Calculator.ArithmeticOp
import Calculator.Instruction.Form
import Calculator.Processor.Dump

namespace Calculator

/-- Something that the host is told. -/
inductive Event where
  /-- Something went wrong and was passed over. -/
  | warned (w : Warning)
  /-- A word is about to be executed by the processor as it stands. -/
  | fetched (word : Nat) (cpu : Processor)
  /-- An arithmetic operation is about to be applied to a field. -/
  | selected (op : ArithmeticOp) (field : Field)
  /-- A saved record held not a single readable field. -/
  | unreadableRecord (model : Model)
  deriving DecidableEq

/-- The line that the log shows for an event. -/
def Event.logLine : Event → String
  | .warned w => "WARN " ++ w.message
  | .fetched word cpu =>
    "TRACE " ++ Address.text cpu.last ++ " " ++ Text.octal 4 word ++ " "
      ++ (WordForm.ofWord word).text ++ "\n" ++ cpu.dump
  | .selected op field => "TRACE " ++ op.text ++ "[" ++ field.text ++ "]"
  | .unreadableRecord model =>
    "WARN state record unreadable, starting from reset; model=" ++ model.name

/-- What comes of running a processor. -/
structure Outcome where
  cpu : Processor
  events : List Event
  fault : Option Fault
  deriving DecidableEq

namespace Outcome

/-- A new state and nothing to tell. -/
def done (cpu : Processor) : Outcome := ⟨cpu, [], none⟩

/-- A new state and a warning. -/
def warn (cpu : Processor) (w : Warning) : Outcome := ⟨cpu, [.warned w], none⟩

/-- The state in which a fault left the processor. -/
def fail (cpu : Processor) (f : Fault) : Outcome := ⟨cpu, [], some f⟩

/-- The outcome with earlier events put before its own. -/
def after (o : Outcome) (events : List Event) : Outcome := { o with events := events ++ o.events }

end Outcome

end Calculator

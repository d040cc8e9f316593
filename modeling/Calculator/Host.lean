/-
# The host's side

What a host does to a processor between steps: it presses keys, moves switches and reads the
display.  Nothing is queued; the firmware polls the key through the bits that each step latches.
-/
import Calculator.Processor

namespace Calculator

namespace Processor

/-! ## 1. Keys and switches -/

/-- Leaves sleep or power-off. -/
def wake (cpu : Processor) : Processor := { cpu with sleeping := false, enabled := true }

/-- Holds a key down.  A Nut that is off or asleep wakes up. -/
def press (cpu : Processor) (code : Nat) : Processor :=
  let cpu := { cpu with keyboard := { cpu.keyboard with code := code, pressed := true } }
  if cpu.hardware.family = .nut ∧ (cpu.sleeping ∨ ¬cpu.enabled) then cpu.wake else cpu

/-- Lets the key go.  Its code stays until the firmware takes it. -/
def release (cpu : Processor) : Processor :=
  { cpu with keyboard := { cpu.keyboard with pressed := false } }

/-- Moves the switch between program and run. -/
def setProgram (cpu : Processor) (on : Bool) : Processor :=
  { cpu with switches := { cpu.switches with program := on } }

/-- Moves the timer switch. -/
def setTimer (cpu : Processor) (on : Bool) : Processor :=
  { cpu with switches := { cpu.switches with timer := on } }

/-- Turns the trace on or off. -/
def setTrace (cpu : Processor) (on : Bool) : Processor :=
  { cpu with switches := { cpu.switches with trace := on } }

/-- Moves the print switch of a printing model. -/
def setPrintMode (cpu : Processor) (mode : PrintMode) : Processor :=
  { cpu with printer := cpu.printer.map fun printer => { printer with mode := mode } }

/-- Takes the printed lines out of the printer. -/
def takePrinted (cpu : Processor) : List String × Processor :=
  match cpu.printer with
  | some printer => (printer.take.1, { cpu with printer := some printer.take.2 })
  | none => ([], cpu)

end Processor

/-! ## 2. The display -/

/-- What the host needs in order to draw the display: the digits of `a`, the mask in `b`, and
whether anything is lit. -/
structure DisplayState where
  a : Register
  b : Register
  displayEnable : Bool
  enabled : Bool
  sleeping : Bool
  status : Nat
  deriving DecidableEq, Repr

namespace DisplayState

/-- Whether anything is to be drawn. -/
def isLit (d : DisplayState) : Bool := d.enabled && d.displayEnable

/-- The digits to be drawn, the most significant first. -/
def digits (d : DisplayState) : String := d.a.text

end DisplayState

/-- The display as it stands. -/
def Processor.display (cpu : Processor) : DisplayState where
  a := cpu.register .a
  b := cpu.register .b
  displayEnable := cpu.flags.displayEnable
  enabled := cpu.enabled
  sleeping := cpu.sleeping
  status := cpu.statusWord

end Calculator

/-
# Display, power and peripherals

Instructions on the display and the power, and those of the card reader and the printer.  Without
the peripheral its instructions do nothing; the decoder does not hand them out there.
-/
import Calculator.Execution.Registers

namespace Calculator.Processor

/-! ## 1. Display and power -/

/-- Turns the display on or off. -/
def setDisplay (cpu : Processor) (on : Bool) : Processor :=
  { cpu with flags := { cpu.flags with displayEnable := on } }

/-- Powers down.  With the display on the processor only sleeps; otherwise it is off, and the carry
is set for the instruction that a key will wake it to. -/
def powerOff (cpu : Processor) : Processor :=
  if cpu.flags.displayEnable then { cpu with sleeping := true, pc := 0 }
  else { cpu.setCarry true with enabled := false, pc := 0 }

/-- Executes a control instruction. -/
def runControl (cpu : Processor) : ControlOp → Processor
  | .setBase base => { cpu with base := base }
  | .rotateLeftA => cpu.rotateLeft .a
  | .rotateRightC n => cpu.rotateRight .c n
  | .toggleDisplay => cpu.setDisplay (!cpu.flags.displayEnable)
  | .setDisplay on => cpu.setDisplay on
  | .powerOff => cpu.powerOff

/-! ## 2. The card reader -/

/-- Executes a card reader instruction with the reader that is fitted. -/
def runCardWith (cpu : Processor) (reader : CardReader) : CardOp → Processor
  | .eject => { cpu.setBit 3 true with card := some { reader with card := false } }
  | .testCard => cpu.setBit 3 reader.card
  | .testRun => cpu.setBit 3 (!cpu.flags.mode)
  | .set flag => { cpu with card := some (reader.set true flag) }
  | .take flag => { cpu.setBit 3 (reader.get flag) with card := some (reader.set false flag) }
  | .idle => cpu

/-- Executes a card reader instruction. -/
def runCard (cpu : Processor) (op : CardOp) : Processor :=
  match cpu.card with
  | some reader => cpu.runCardWith reader op
  | none => cpu

/-! ## 3. The printer -/

/-- Takes over the printer after writing to it; a full line is told to the host. -/
def takePrinter (cpu : Processor) (result : Printer × Bool) : Outcome :=
  let after := { cpu with printer := some result.1 }
  if result.2 then .done after else .warn after (.printerOverflow cpu.last)

/-- Executes a printer instruction with the printer that is fitted. -/
def runPrinterWith (cpu : Processor) (printer : Printer) : PrinterOp → Outcome
  | .printLine => .done { cpu.setBit 3 true with printer := some printer.flush }
  | .printLineAndPoll =>
    let cpu := { cpu with printer := some printer.flush }
    .done (if cpu.keyboard.pressed ∧ cpu.keyboard.code ≠ 0 then cpu.setBit 3 true else cpu)
  | .numeric => cpu.takePrinter (printer.printNumeric (cpu.register .c))
  | .alpha => cpu.takePrinter (printer.printAlpha (cpu.register .c))

/-- Executes a printer instruction. -/
def runPrinter (cpu : Processor) (op : PrinterOp) : Outcome :=
  match cpu.printer with
  | some printer => cpu.runPrinterWith printer op
  | none => .done cpu

end Calculator.Processor

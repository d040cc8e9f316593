/-
# Data registers

Instructions that select, store, load and clear data registers.  Where no register stands, a store
is dropped and a load gives zero; all parts but the Nut tell the host so.  The printing model reads
its key code through the data address `keyAddress`.
-/
import Calculator.Execution.Registers

namespace Calculator.Processor

/-! ## 1. The selected register -/

/-- The data address at which the printing model finds the key code. -/
def keyAddress : Nat := 0xff

/-- The data addresses of a Nut behind which there is no register. -/
def missingCells : List Nat := [0x08, 0x18]

/-- The index of the selected data register, if it exists. -/
def cell? (cpu : Processor) : Option Nat :=
  let a := cpu.dataAddress
  if a < cpu.hardware.memorySize ∧ ¬(cpu.hardware.family = .nut ∧ a ∈ missingCells) then some a
  else none

/-- What an access to the selected data register tells the host. -/
def cellEvents (cpu : Processor) : List Event :=
  if cpu.hardware.family = .nut ∨ cpu.cell?.isSome then []
  else [.warned (.invalidAddress cpu.last cpu.dataAddress)]

/-- Stores `c` in the selected data register. -/
def store (cpu : Processor) : Outcome :=
  match cpu.cell? with
  | some i =>
    .done { cpu with memory := cpu.memory.setIfInBounds i (cpu.register .c) }
  | none => (Outcome.done cpu).after cpu.cellEvents

/-- The content of the selected data register, zero if there is none. -/
def cellContent (cpu : Processor) : Register :=
  match cpu.cell? with
  | some i => cpu.memory.getD i .zero
  | none => .zero

/-- Loads the selected data register into `c`. -/
def load (cpu : Processor) : Outcome :=
  (Outcome.done (cpu.setRegister .c cpu.cellContent)).after cpu.cellEvents

/-! ## 2. Selecting -/

/-- Selects the data register `n`, or the last one if there is no such register. -/
def selectClamped (cpu : Processor) (n : Nat) : Outcome :=
  let size := cpu.hardware.memorySize
  if n < size then .done { cpu with dataAddress := n }
  else .warn { cpu with dataAddress := size - 1 } (.invalidRegister cpu.last n (size - 1))

/-- Selects a data register from `c`: by one digit on a Classic part, by two on a Woodstock, by
three on a Nut. -/
def selectFromC (cpu : Processor) : Outcome :=
  let c := cpu.register .c
  match cpu.hardware.family with
  | .classic => cpu.selectClamped (c.digit 12)
  | .woodstock =>
    let n := c.digit 1 * 0x10 + c.digit 0
    if cpu.printer.isSome ∧ n = keyAddress then .done { cpu with dataAddress := keyAddress }
    else cpu.selectClamped n
  | .nut =>
    .done { cpu with dataAddress := (c.digit 2 * 0x100 + c.digit 1 * 0x10 + c.digit 0) % 0x400 }

/-- Selects the register `n` within the block of sixteen. -/
def selectInBlock (cpu : Processor) (n : Nat) : Processor :=
  match cpu.hardware.family with
  | .nut => { cpu with dataAddress := cpu.dataAddress % 0x1000 / 0x10 * 0x10 ||| n }
  | _ => { cpu with dataAddress := cpu.dataAddress / 0x10 * 0x10 + n }

/-! ## 3. The printing model -/

/-- Hands the key code out in `c[2:1]` and forgets it. -/
def readKey (cpu : Processor) : Processor :=
  let code := cpu.keyboard.code
  { cpu.putFrom .c 0 [0, code % 0x10, code / 0x10] with
    keyboard := { cpu.keyboard with code := 0 } }

/-- Loads a numbered register.  The printing model has no such registers to read, save the key
code. -/
def loadAt (cpu : Processor) (n : Nat) : Outcome :=
  if cpu.printer.isSome then
    .done (if n = 0xf ∧ cpu.dataAddress = keyAddress then cpu.readKey else cpu)
  else (cpu.selectInBlock n).load

/-! ## 4. Clearing -/

/-- Clears the block of sixteen data registers that holds the data address. -/
def clearBlock (cpu : Processor) : Processor :=
  { cpu with
    memory := cpu.memory.mapIdx fun i r => if i / 0x10 = cpu.dataAddress / 0x10 then .zero else r }

/-- Clears the data registers as far as the model lets it. -/
def clearData (cpu : Processor) : Processor :=
  match cpu.hardware.clearData, cpu.card with
  | .ignore, _ => cpu
  | .afterPowerOn, some reader =>
    let (goesAhead, reader) := reader.allowClear
    let cpu := { cpu with card := some reader }
    if goesAhead then cpu.clearBlock else cpu
  | _, _ => cpu.clearBlock

/-! ## 5. Instructions -/

/-- Executes an instruction on the data registers. -/
def runData (cpu : Processor) : DataOp → Outcome
  | .selectFromC => cpu.selectFromC
  | .store => cpu.store
  | .storeAt n => (cpu.selectInBlock n).store
  | .load => cpu.load
  | .loadAt n => cpu.loadAt n
  | .clear => .done cpu.clearData

end Calculator.Processor

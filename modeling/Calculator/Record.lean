/-
# The record of continuous memory

What survives power-off is saved as text: hexadecimal bytes of two digits, a comma after each, some
number of them on a line.  The *layout* of a model lists the slots of its record, line by line; a
Nut saves its whole processor ahead of the data registers, the other continuous models the data
registers alone.  Writing and reading both follow the layout.

Reading is lenient in the text of a field and strict in their order: it stops at the first field
that is not there or is no byte, and leaves every slot from there on as it was.
-/
import Calculator.Event
import Calculator.Text.Blank
import Calculator.Text.Lines

namespace Calculator

/-! ## 1. Slots -/

/-- A value that a record holds. -/
inductive Slot where
  | flag (flag : Flag)
  | status (bit : Nat)
  | digit (r : RegisterName) (i : Nat)
  | p
  | q
  | f
  | gLow
  | gHigh
  | cell (index i : Nat)
  deriving DecidableEq, Repr

namespace Slot

/-- The positions of a register in the order in which they are saved, the top digit first. -/
def positions : List Nat := (List.range 14).reverse

/-- The lines that only a Nut saves. -/
def processorLines (statusBits : Nat) : List (List Slot) :=
  [Flag.all.map flag, (List.range statusBits).map status]
    ++ RegisterName.all.map (fun r => positions.map (digit r))
    ++ [[p, q, f, gLow, gHigh]]

/-- The lines of the data registers. -/
def memoryLines (memorySize : Nat) : List (List Slot) :=
  (List.range memorySize).map fun k => positions.map (cell k)

/-- The slots of a record, line by line.  Without continuous memory there are none. -/
def layout (hw : Hardware) : List (List Slot) :=
  if hw.continuous then
    (if hw.family = .nut then processorLines hw.statusBits else []) ++ memoryLines hw.memorySize
  else []

/-! ## 2. Values -/

/-- The value that a processor has in a slot. -/
def value (cpu : Processor) : Slot → Nat
  | flag x => (cpu.flags.get x).toNat
  | status bit => (cpu.bit bit).toNat
  | digit r i => (cpu.register r).digit i
  | p => cpu.p
  | q => cpu.q
  | f => cpu.f
  | gLow => cpu.g.1
  | gHigh => cpu.g.2
  | cell k i => (cpu.memory.getD k .zero).digit i

/-- The pointer that a saved value stands for: its low digit, and the last position of a register
if that is past it. -/
def pointerValue (v : Nat) : Nat := if v % 0x10 < 14 then v % 0x10 else 13

/-- What restoring a slot tells the host. -/
def events (cpu : Processor) (v : Nat) : Slot → List Event
  | p | q => if v % 0x10 < 14 then [] else [.warned (.pointerClamped cpu.pc (v % 0x10))]
  | _ => []

/-- The processor with the value of a slot restored. -/
def assign (cpu : Processor) (v : Nat) : Slot → Processor
  | flag x => { cpu with flags := cpu.flags.set (v ≠ 0) x }
  | status bit => cpu.setBit bit (v ≠ 0)
  | digit r i => cpu.setRegister r ((cpu.register r).put i (v % 0x10))
  | p => { cpu with p := pointerValue v }
  | q => { cpu with q := pointerValue v }
  | f => { cpu with f := v % 0x10 }
  | gLow => { cpu with g := (v % 0x10, cpu.g.2) }
  | gHigh => { cpu with g := (cpu.g.1, v % 0x10) }
  | cell k i => { cpu with memory := cpu.memory.modify k fun r => r.put i (v % 0x10) }

end Slot

/-! ## 3. Writing -/

namespace Record

/-- The text of one field. -/
def field (v : Nat) : String := Text.hex 2 v ++ ","

/-- The record of a processor; empty without continuous memory. -/
def write (cpu : Processor) : String :=
  String.join <| (Slot.layout cpu.hardware).map fun line =>
    String.join (line.map fun slot => field (slot.value cpu)) ++ "\n"

/-- The record of a processor, if it has continuous memory. -/
def save? (cpu : Processor) : Option String :=
  if cpu.hardware.continuous then some (write cpu) else none

/-! ## 4. Reading -/

/-- The comma byte, which ends a field. -/
def comma : UInt8 := 0x2c

/-- The bytes that may stand before a field: space, tab, line feed, form feed, carriage return. -/
def isGap (b : UInt8) : Bool := b == 0x20 || b == 0x09 || b == 0x0a || b == 0x0c || b == 0x0d

/-- The value of the text of a field. -/
def fieldValue? (bytes : List UInt8) : Option Nat := do
  let text ← Text.decode? bytes
  Text.numeral? 16 0x100 (Text.trim text)

/-- The next field and what follows its comma. -/
def next? (bytes : List UInt8) : Option (Nat × List UInt8) :=
  let bytes := bytes.dropWhile isGap
  match bytes.dropWhile (· ≠ comma) with
  | [] => none
  | _ :: rest => (fieldValue? (bytes.takeWhile (· ≠ comma))).map fun v => (v, rest)

/-- What comes of restoring a record. -/
structure Restored where
  cpu : Processor
  events : List Event
  /-- How many fields were restored. -/
  count : Nat

/-- Restores slots one after the other for as long as there are fields. -/
def readSlots (cpu : Processor) (bytes : List UInt8) : List Slot → Restored
  | [] => ⟨cpu, [], 0⟩
  | slot :: slots =>
    match next? bytes with
    | none => ⟨cpu, [], 0⟩
    | some (v, rest) =>
      let restored := readSlots (slot.assign cpu v) rest slots
      { restored with events := slot.events cpu v ++ restored.events, count := restored.count + 1 }

/-- Restores a record. -/
def read (cpu : Processor) (bytes : List UInt8) : Restored :=
  readSlots cpu bytes (Slot.layout cpu.hardware).flatten

end Record

end Calculator

/-
# The processor

The state of a processor: the parts that instructions work on, the inputs that the host sets and
the peripheral that the model has.  `Processor.reset` is the power-on state; `Processor.new` starts
there.  Numbers are plain naturals, and wherever the hardware keeps a limited number of bits the
operation that writes the number says so.
-/
import Calculator.CardReader
import Calculator.Model
import Calculator.Printer
import Calculator.Register.Serial
import Calculator.ReturnStack
import Calculator.Rom

namespace Calculator

/-! ## 1. Parts -/

/-- The flags of the processor, in the order in which they are saved. -/
inductive Flag where
  | carry
  | prevCarry
  | delayedRom
  | displayEnable
  | bankSwitch
  | mode
  deriving DecidableEq, Repr

/-- Every flag. -/
def Flag.all : List Flag := [carry, prevCarry, delayedRom, displayEnable, bankSwitch, mode]

/-- The values of the flags. -/
structure Flags where
  /-- Left by the instruction that ran last. -/
  carry : Bool
  /-- The carry that the running instruction found. -/
  prevCarry : Bool
  /-- A select of another ROM waits for the next jump. -/
  delayedRom : Bool
  displayEnable : Bool
  bankSwitch : Bool
  mode : Bool
  deriving DecidableEq, Repr

namespace Flags

/-- No flag set. -/
def clear : Flags := ⟨false, false, false, false, false, false⟩

/-- The value of a flag. -/
def get (fs : Flags) : Flag → Bool
  | .carry => fs.carry
  | .prevCarry => fs.prevCarry
  | .delayedRom => fs.delayedRom
  | .displayEnable => fs.displayEnable
  | .bankSwitch => fs.bankSwitch
  | .mode => fs.mode

/-- The flags with one set or cleared. -/
def set (fs : Flags) (v : Bool) : Flag → Flags
  | .carry => { fs with carry := v }
  | .prevCarry => { fs with prevCarry := v }
  | .delayedRom => { fs with delayedRom := v }
  | .displayEnable => { fs with displayEnable := v }
  | .bankSwitch => { fs with bankSwitch := v }
  | .mode => { fs with mode := v }

end Flags

/-- The two pointers of a Nut.  Other parts have P alone. -/
inductive Pointer where
  | p
  | q
  deriving DecidableEq, Repr

/-- The key as the host last reported it, and what the processor has noticed of it. -/
structure Keyboard where
  code : Nat
  pressed : Bool
  /-- Set while a key is held, until an instruction clears it. -/
  flag : Bool
  deriving DecidableEq, Repr

/-- The switches that only the host moves. -/
structure Switches where
  program : Bool
  timer : Bool
  trace : Bool
  deriving DecidableEq, Repr

/-- The number that bits stand for, the lowest bit first. -/
def bitsValue (bits : List Bool) : Nat := bits.foldr (fun b n => b.toNat + 2 * n) 0

/-! ## 2. The state -/

/-- The state of a processor. -/
structure Processor where
  model : Model
  rom : Rom
  registers : RegisterFile
  /-- The data registers. -/
  memory : Array Register
  /-- The status bits, of which a part has the first `Hardware.statusBits`. -/
  status : Vector Bool 16
  flags : Flags
  p : Nat
  q : Nat
  active : Pointer
  f : Nat
  /-- The two digits of g, the lower one first. -/
  g : Nat × Nat
  stack : ReturnStack
  pc : Address
  /-- The address of the running instruction. -/
  last : Address
  dataAddress : Nat
  /-- The ROM that a delayed select has named. -/
  romNumber : Nat
  base : Base
  /-- The word that ran last. -/
  opcode : Nat
  keyboard : Keyboard
  switches : Switches
  enabled : Bool
  sleeping : Bool
  printer : Option Printer
  card : Option CardReader
  deriving DecidableEq

namespace Processor

/-- The hardware of the processor's model. -/
def hardware (cpu : Processor) : Hardware := cpu.model.hardware

/-- The pointer that instructions use. -/
def pointer (cpu : Processor) : Nat :=
  match cpu.active with
  | .p => cpu.p
  | .q => cpu.q

/-- Moves the pointer that instructions use. -/
def setPointer (cpu : Processor) (n : Nat) : Processor :=
  match cpu.active with
  | .p => { cpu with p := n }
  | .q => { cpu with q := n }

/-- The content of a named register. -/
def register (cpu : Processor) (r : RegisterName) : Register := cpu.registers.get r

/-- Replaces the content of a named register. -/
def setRegister (cpu : Processor) (r : RegisterName) (x : Register) : Processor :=
  { cpu with registers := cpu.registers.set x r }

/-- Sets or clears the carry. -/
def setCarry (cpu : Processor) (v : Bool) : Processor :=
  { cpu with flags := { cpu.flags with carry := v } }

/-- Clears the carry and the carry before it. -/
def clearCarries (cpu : Processor) : Processor :=
  { cpu with flags := { cpu.flags with carry := false, prevCarry := false } }

/-- Sets or clears a status bit. -/
def setBit (cpu : Processor) (i : Nat) (v : Bool) : Processor :=
  { cpu with status := cpu.status.setIfInBounds i v }

/-- The value of a status bit. -/
def bit (cpu : Processor) (i : Nat) : Bool := cpu.status.getD i false

/-- The status bits of the part as a number, bit `i` being status bit `i`. -/
def statusWord (cpu : Processor) : Nat :=
  bitsValue ((List.range cpu.hardware.statusBits).map cpu.bit)

/-! ## 3. Power on -/

/-- The status bits at power on.  Woodstock parts start with s5 set. -/
def powerOnStatus : Family → Vector Bool 16
  | .woodstock => (Vector.replicate 16 false).setIfInBounds 5 true
  | _ => Vector.replicate 16 false

/-- The flags at power on.  Nut parts start with the carry set. -/
def powerOnFlags : Family → Flags
  | .nut => { Flags.clear with carry := true }
  | _ => .clear

/-- The power-on state.  The image, the registers `m` and `n`, the switches and what the printer
has printed are left alone. -/
def reset (cpu : Processor) : Processor :=
  let isNut := cpu.hardware.family = .nut
  { cpu with
    registers := cpu.registers.clearVolatile
    memory := cpu.memory.map fun _ => .zero
    status := powerOnStatus cpu.hardware.family
    flags := powerOnFlags cpu.hardware.family
    p := 0
    q := if isNut then 0 else cpu.q
    active := if isNut then .p else cpu.active
    f := 0
    g := (0, 0)
    stack := .empty
    pc := 0
    last := 0
    dataAddress := 0
    romNumber := if isNut then cpu.romNumber else 0
    base := .decimal
    opcode := 0
    keyboard := ⟨0, false, false⟩
    enabled := true
    sleeping := false
    printer := cpu.printer.map Printer.reset
    card := cpu.card.map fun _ => .poweredOn cpu.hardware.continuous }

/-- A processor of the model with the image, at power on. -/
def new (model : Model) (rom : Rom) : Processor :=
  reset
    { model := model
      rom := rom
      registers := .zero
      memory := Array.replicate model.hardware.memorySize .zero
      status := Vector.replicate 16 false
      flags := .clear
      p := 0
      q := 0
      active := .p
      f := 0
      g := (0, 0)
      stack := .empty
      pc := 0
      last := 0
      dataAddress := 0
      romNumber := 0
      base := .decimal
      opcode := 0
      keyboard := ⟨0, false, false⟩
      switches := ⟨false, false, false⟩
      enabled := true
      sleeping := false
      printer := if model.hardware.peripheral = .printer then some .new else none
      card := if model.hardware.peripheral = .cardReader then some .idle else none }

end Processor

end Calculator

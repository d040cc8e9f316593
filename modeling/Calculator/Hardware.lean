/-
# Hardware

What sets one calculator apart from another: the processor family, the sizes of its memories and
the handful of ways in which parts of one family differ.
-/
import Calculator.Field

namespace Calculator

/-- The processor family.  It selects the instruction set and the order of the fields. -/
inductive Family where
  | classic
  | woodstock
  | nut
  deriving DecidableEq, Repr

/-- How a pointer counts up. -/
inductive PointerStyle where
  /-- Through sixteen values. -/
  | masked
  /-- Through fifteen values, the last of them past the register. -/
  | wrapping
  /-- Round the fourteen digits; a pointer at zero stays there if the instruction before was the
  same one. -/
  | previousOpcode
  deriving DecidableEq, Repr

/-- How keys and switches reach the processor at the start of a step. -/
inductive InputStyle where
  /-- The key sets s0, the program switch s3 and the timer switch s11. -/
  | classic
  /-- The key sets s15, the program switch s3; s5 is held at one. -/
  | woodstock
  /-- The key sets s15, the program switch s3; s5 is held at zero. -/
  | spice
  /-- The key sets s15 and the program switch is copied to the mode flag. -/
  | hp67
  /-- The key sets the keyboard flag. -/
  | nut
  /-- Nothing is latched. -/
  | none
  deriving DecidableEq, Repr

/-- What clearing the data registers does. -/
inductive ClearStyle where
  | clear
  | ignore
  /-- Cleared only once the card reader has counted the clears of the start-up. -/
  | afterPowerOn
  deriving DecidableEq, Repr

/-- What is fitted beside the keyboard and the display. -/
inductive Peripheral where
  | none
  | printer
  | cardReader
  deriving DecidableEq, Repr

/-- The hardware of one calculator. -/
structure Hardware where
  family : Family
  romSize : Nat
  memorySize : Nat
  statusBits : Nat
  pointer : PointerStyle
  inputs : InputStyle
  continuous : Bool
  clearData : ClearStyle
  peripheral : Peripheral
  deriving DecidableEq, Repr

namespace Hardware

/-- A Classic part. -/
def classic (memorySize : Nat) : Hardware where
  family := .classic
  romSize := 0o4000
  memorySize := memorySize
  statusBits := 12
  pointer := .masked
  inputs := .classic
  continuous := false
  clearData := .clear
  peripheral := .none

/-- An early Woodstock part. -/
def woodstock (romSize memorySize : Nat) (continuous : Bool) : Hardware where
  family := .woodstock
  romSize := romSize
  memorySize := memorySize
  statusBits := 16
  pointer := .wrapping
  inputs := .woodstock
  continuous := continuous
  clearData := .clear
  peripheral := .none

/-- A Spice part: a Woodstock with another pointer and another self test. -/
def spice (romSize memorySize : Nat) (continuous : Bool) : Hardware :=
  { woodstock romSize memorySize continuous with pointer := .previousOpcode, inputs := .spice }

/-- A Nut part. -/
def nut (romSize : Nat) : Hardware where
  family := .nut
  romSize := romSize
  memorySize := 256
  statusBits := 14
  pointer := .previousOpcode
  inputs := .nut
  continuous := true
  clearData := .clear
  peripheral := .none

/-- The fields in the order of their three bit codes. -/
def fields (hw : Hardware) : Vector Field 8 :=
  match hw.family with
  | .classic =>
    #v[.pointer, .mantissa, .exponent, .word, .wordPointer, .mantissaSign, .exponentSign, .sign]
  | .woodstock =>
    #v[.pointer, .wordPointer, .exponentSign, .exponent, .sign, .mantissa, .word, .mantissaSign]
  | .nut =>
    #v[.pointer, .exponent, .wordPointer, .word, .pointerPair, .exponentSign, .mantissa, .sign]

/-- The field of a code, of which the low three bits count. -/
def field (hw : Hardware) (code : Nat) : Field :=
  hw.fields.get ⟨code % 8, Nat.mod_lt _ (by decide)⟩

/-- The radix in which listings for the part are written. -/
def listingRadix (hw : Hardware) : Nat :=
  match hw.family with
  | .nut => 16
  | _ => 8

end Hardware

end Calculator

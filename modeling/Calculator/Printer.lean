/-
# The thermal printer

The printer takes six bit codes from right to left into a line of twenty cells.  Printing a line
turns the codes into characters and queues the text for the host.  Numbers come as digits, text
as six bit codes packed into the digits of a register, two codes in three digits.
-/
import Calculator.Register

namespace Calculator

/-- The positions of the print switch. -/
inductive PrintMode where
  | all
  | print
  | manual
  deriving DecidableEq, Repr

/-- The digit by which the switch position is read. -/
def PrintMode.code : PrintMode → Nat
  | .all => 1
  | .print => 2
  | .manual => 4

/-- The line under the print head and the lines already printed. -/
structure Printer where
  /-- The codes of the line, left to right. -/
  cells : Vector Nat 20
  /-- The cell written last; past the line if nothing was written. -/
  head : Nat
  mode : PrintMode
  /-- The printed lines that the host has not taken, the oldest first. -/
  printed : Array String
  deriving DecidableEq

namespace Printer

/-! ## 1. Characters -/

/-- The code of an empty cell. -/
def blank : Nat := 0x3f

/-- The characters of the sixty-four codes. -/
def characters : Array Char := #[
  ' ', ' ', '=', '0', 'L', 'M', '≠', '1', 'G', '¿', '>', '2', 'O', 'H', '≤', '3',
  'P', '√', 'X', '4', 'R', 'F', 'Z', '5', 'S', '?', 'x', '6', 'T', '→', '⇔', '7',
  '%', ' ', '¿', '8', 'J', 'X', '>', '9', 'A', '#', 'K', '.', 'B', 'b', '/', '-',
  'C', 'c', '÷', '+', 'D', 'd', '↑', '#', 'E', 'e', '↓', ' ', 'I', 'i', 'x', ' ']

/-- The character of a code, of which the low six bits count. -/
def character (code : Nat) : Char := characters.getD (code % 0x40) ' '

/-! ## 2. The line -/

/-- A printer with an empty line and an empty queue. -/
def new : Printer := ⟨Vector.replicate 20 blank, 20, .manual, #[]⟩

/-- Empties the line. -/
def reset (p : Printer) : Printer := { p with cells := Vector.replicate 20 blank, head := 20 }

/-- Whether nothing was written on the line. -/
def isEmpty (p : Printer) : Bool := 20 ≤ p.head

/-- Writes one code to the left of the last one. -/
def put (p : Printer) (code : Nat) : Printer :=
  { p with cells := p.cells.setIfInBounds (p.head - 1) code, head := p.head - 1 }

/-- Writes codes while there is room, and tells whether all of them found room. -/
def write (p : Printer) : List Nat → Printer × Bool
  | [] => (p, true)
  | code :: codes => if p.head = 0 then (p, false) else (p.put code).write codes

/-- Prints the line, if anything was written on it. -/
def flush (p : Printer) : Printer :=
  if p.isEmpty then p
  else { p with printed := p.printed.push (String.ofList (p.cells.toList.map character)) }.reset

/-- The queued lines, and the printer without them. -/
def take (p : Printer) : List String × Printer := (p.printed.toList, { p with printed := #[] })

/-! ## 3. Numbers -/

/-- The code of a decimal digit. -/
def digitCode (d : Nat) : Nat := d * 4 + 3

/-- The printer with its last code taken back if that was a blank. -/
def dropBlank (p : Printer) : Printer :=
  if p.head < 20 ∧ p.cells.getD p.head 0 = blank then { p with head := p.head + 1 } else p

/-- Writes the digits of a register up to the first fifteen, and tells whether they found room. -/
def printNumeric (p : Printer) (r : Register) : Printer × Bool :=
  p.dropBlank.write ((r.digits.toList.takeWhile (· ≠ 0xf)).map digitCode)

/-! ## 4. Text -/

/-- The six bit codes packed into digits, two in every three. -/
def unpack : List Nat → List Nat
  | low :: middle :: high :: rest =>
    (low + middle % 4 * 0x10) :: (middle / 4 + high * 4) :: unpack rest
  | [low, middle] => [low + middle % 4 * 0x10]
  | _ => []

/-- A list of codes up to its first blank, which is kept. -/
def throughBlank : List Nat → List Nat
  | [] => []
  | code :: codes => if code = blank then [code] else code :: throughBlank codes

/-- Writes the codes packed into a register through the first blank, and tells whether they found
room. -/
def printAlpha (p : Printer) (r : Register) : Printer × Bool :=
  p.write (throughBlank (unpack r.digits.toList))

end Printer

end Calculator

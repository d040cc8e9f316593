/-
# Listings

A listing is a text with one `address:word` per line; a comma may stand for the colon.  Lines that
do not hold two numbers say nothing, so a listing may carry headings and comments.  Each line that
does is written over the image.  A line beyond the image is told and skipped, and a line that is
no text ends the reading; what was written before it stays.
-/
import Calculator.Diagnostic
import Calculator.Rom
import Calculator.Text.Lines

namespace Calculator

/-! ## 1. One line -/

/-- What a line of a listing says. -/
structure ListingEntry where
  address : Nat
  word : Nat
  deriving DecidableEq, Repr

namespace ListingEntry

/-- The characters that part the address from the word. -/
def isSeparator (c : Char) : Bool := c == ':' || c == ','

/-- The characters that end the word. -/
def endsWord (c : Char) : Bool := Text.isBlank c || c == ',' || c == ';'

/-- Cuts a text at its first separator. -/
def cut? (cs : List Char) : Option (List Char × List Char) :=
  match cs.dropWhile fun c => !isSeparator c with
  | [] => none
  | _ :: rest => some (cs.takeWhile fun c => !isSeparator c, rest)

/-- The numbers of a line have at most thirty-two bits. -/
def limit : Nat := 0x100000000

/-- Reads a line. -/
def ofLine? (radix : Nat) (line : List Char) : Option ListingEntry := do
  let (address, rest) ← cut? (Text.trim line)
  let word := (Text.trim rest).takeWhile fun c => !endsWord c
  let address ← Text.numeral? radix limit (Text.trim address)
  let word ← Text.numeral? radix limit word
  pure ⟨address, word⟩

example : ofLine? 8 "0003, 0176 ; loop".toList = some ⟨3, 0o176⟩ := by decide

end ListingEntry

/-! ## 2. A whole listing -/

/-- An image while a listing is written over it. -/
structure Patch where
  rom : Rom
  /-- How many words were written. -/
  written : Nat
  /-- The lines beyond the image, in order. -/
  warnings : Array Warning
  /-- Whether every line so far was text. -/
  readable : Bool

namespace Patch

/-- Writes the entry of one line over the image. -/
def apply (p : Patch) (line : Nat) (e : ListingEntry) : Patch :=
  if e.address < p.rom.size then
    { p with rom := p.rom.put e.address e.word, written := p.written + 1 }
  else
    { p with warnings := p.warnings.push (.patchOutOfRange line e.address) }

/-- Writes lines over the image, the first of them numbered `line`. -/
def applyLines (radix : Nat) : Nat → List (List UInt8) → Patch → Patch
  | _, [], p => p
  | line, bytes :: rest, p =>
    match Text.decode? bytes with
    | none => { p with readable := false }
    | some text =>
      match ListingEntry.ofLine? radix text with
      | none => applyLines radix (line + 1) rest p
      | some e => applyLines radix (line + 1) rest (p.apply line e)

/-- The error that ended the reading, if one did. -/
def error? (p : Patch) : Option InputError :=
  if p.readable then none else some .invalidText

end Patch

namespace Rom

/-- Writes a listing over the image. -/
def patch (rom : Rom) (radix : Nat) (listing : List UInt8) : Patch :=
  Patch.applyLines radix 1 (Text.lines listing) ⟨rom, 0, #[], true⟩

/-- Writes a listing over a blank image of the size that the model has. -/
def load (model : Model) (listing : List UInt8) : Patch :=
  (blank model.hardware.romSize).patch model.hardware.listingRadix listing

end Rom

end Calculator

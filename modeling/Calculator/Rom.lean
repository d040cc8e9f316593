/-
# Program images

The program is an array of words.  A word has ten bits; an image made by hand may hold wider
ones, and the instruction sets say what the upper bits do.
-/
import Calculator.Address

namespace Calculator

/-- A program image. -/
structure Rom where
  words : Array Nat
  deriving DecidableEq, Repr

namespace Rom

/-- An image of `size` words, all zero. -/
def blank (size : Nat) : Rom := ⟨Array.replicate size 0⟩

/-- How many words the image has. -/
def size (rom : Rom) : Nat := rom.words.size

/-- Whether the image has no word at all. -/
def isEmpty (rom : Rom) : Bool := rom.words.isEmpty

/-- The word at an address, if the image reaches so far. -/
def word? (rom : Rom) (a : Address) : Option Nat := rom.words[a]?

/-- The image with one word replaced by the low ten bits of `w`. -/
def put (rom : Rom) (a : Address) (w : Nat) : Rom := ⟨rom.words.setIfInBounds a (w % 0x400)⟩

end Rom

end Calculator

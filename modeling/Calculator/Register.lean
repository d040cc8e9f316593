/-
# Registers and spans

A register holds fourteen digits, digit 0 the least significant.  Arithmetic never works on a
register as such but on a *span* of it, an inclusive range of digit positions.  `slice` takes the
digits of a span out, least significant first, and `splice` puts digits back; everything that the
processor does to a part of a register is a `splice` of some list of digits, so what stands
outside the span is never touched (`digit_splice`).  A span whose first position is past its last
one is empty.
-/
import Calculator.Text.Numeral

namespace Calculator

/-! ## 1. Spans -/

/-- The digit positions `first .. last`, both included. -/
structure Span where
  first : Nat
  last : Nat
  deriving DecidableEq, Repr

namespace Span

/-- All fourteen positions. -/
def word : Span := ⟨0, 13⟩

/-- The single position `i`. -/
def single (i : Nat) : Span := ⟨i, i⟩

/-- How many positions the span has. -/
def width (s : Span) : Nat := s.last + 1 - s.first

/-- The positions of the span in ascending order. -/
def positions (s : Span) : List Nat := List.range' s.first s.width

end Span

/-! ## 2. Registers -/

/-- The content of a register. -/
structure Register where
  digits : Vector Nat 14
  deriving DecidableEq, Repr

namespace Register

/-- Fourteen zeros. -/
def zero : Register := ⟨Vector.replicate 14 0⟩

/-- The digit at a position, and zero past the end. -/
def digit (r : Register) (i : Nat) : Nat := r.digits.getD i 0

/-- The register with one digit replaced. -/
def put (r : Register) (i d : Nat) : Register := ⟨r.digits.setIfInBounds i d⟩

/-- Whether every digit is zero. -/
def isZero (r : Register) : Bool := r.digits.all (· == 0)

/-- The digits of a span, the least significant first. -/
def slice (r : Register) (s : Span) : List Nat := s.positions.map r.digit

/-- The register with the digits of a span replaced, the least significant first. -/
def splice (r : Register) (s : Span) (ds : List Nat) : Register :=
  ⟨Vector.ofFn fun i =>
    if s.first ≤ i ∧ i ≤ s.last then ds.getD (i - s.first) r.digits[i] else r.digits[i]⟩

/-- The digits written out, the most significant first. -/
def text (r : Register) : String :=
  String.join (r.digits.toList.reverse.map (Text.hex 1))

/-! ## 3. Digit by digit

Two registers are equal if their digits are, so an operation is known once its digits are. -/

theorem digit_of_lt (r : Register) {i : Nat} (h : i < 14) : r.digit i = r.digits[i] := by
  simp [digit, Vector.getD, h]

/-- Past the end every digit reads as zero. -/
theorem digit_of_le (r : Register) {i : Nat} (h : 14 ≤ i) : r.digit i = 0 := by
  simp [digit, Vector.getD, Nat.not_lt.mpr h]

/-- Registers are equal if their digits are. -/
theorem ext_digit {r s : Register} (h : ∀ i < 14, r.digit i = s.digit i) : r = s := by
  cases r
  cases s
  simp only [Register.mk.injEq]
  ext i hi
  simpa [digit_of_lt _ hi] using h i hi

@[simp] theorem digit_zero (i : Nat) : zero.digit i = 0 := by
  by_cases h : i < 14 <;> simp [digit, zero, Vector.getD, h]

theorem digit_put (r : Register) (i d : Nat) {j : Nat} (h : j < 14) :
    (r.put i d).digit j = if i = j then d else r.digit j := by
  simp only [digit_of_lt _ h, put]
  grind

theorem digit_put_of_ne (r : Register) {i j : Nat} (h : i ≠ j) (d : Nat) :
    (r.put i d).digit j = r.digit j := by
  rcases Nat.lt_or_ge j 14 with hj | hj
  · rw [digit_put r i d hj, if_neg h]
  · rw [digit_of_le _ hj, digit_of_le _ hj]

/-- Splicing replaces the digits of the span and no others. -/
theorem digit_splice (r : Register) (s : Span) (ds : List Nat) {i : Nat} (h : i < 14) :
    (r.splice s ds).digit i =
      if s.first ≤ i ∧ i ≤ s.last then ds.getD (i - s.first) (r.digit i) else r.digit i := by
  simp [digit_of_lt _ h, splice]

@[simp] theorem length_slice (r : Register) (s : Span) : (r.slice s).length = s.width := by
  simp [slice, Span.positions]

theorem getElem_slice (r : Register) (s : Span) {k : Nat} (h : k < (r.slice s).length) :
    (r.slice s)[k] = r.digit (s.first + k) := by
  simp [slice, Span.positions]

/-- What was spliced in is what a slice of the same span takes out. -/
theorem slice_splice (r : Register) {s : Span} {ds : List Nat} (hs : s.last < 14)
    (hd : ds.length = s.width) : (r.splice s ds).slice s = ds := by
  apply List.ext_getElem
  · simp [hd]
  · intro k h₁ h₂
    have hw : k < s.last + 1 - s.first := by rw [hd] at h₂; exact h₂
    rw [getElem_slice, digit_splice _ _ _ (by omega), if_pos (by omega)]
    simp [List.getD_eq_getElem?_getD, h₂]

/-! ## 4. Addresses within a register

Four neighbouring digits hold a sixteen bit address. -/

/-- The address in the four digits from position `lo` up. -/
def address (r : Register) (lo : Nat) : Nat :=
  r.digit lo + r.digit (lo + 1) * 0x10 + r.digit (lo + 2) * 0x100 + r.digit (lo + 3) * 0x1000

/-- The register with an address put into the four digits from position `lo` up. -/
def putAddress (r : Register) (lo a : Nat) : Register :=
  r.splice ⟨lo, lo + 3⟩ [a % 0x10, a / 0x10 % 0x10, a / 0x100 % 0x10, a / 0x1000 % 0x10]

end Register

/-! ## 5. The named registers -/

/-- The eight registers that instructions name. -/
inductive RegisterName where
  | a | b | c | y | z | t | m | n
  deriving DecidableEq, Repr

namespace RegisterName

/-- The registers in the order in which they are listed and saved. -/
def all : List RegisterName := [a, b, c, y, z, t, m, n]

/-- The letter of a register. -/
def text : RegisterName → String
  | a => "a" | b => "b" | c => "c" | y => "y" | z => "z" | t => "t" | m => "m" | n => "n"

/-- Whether clearing the registers clears this one.  `m` and `n` are kept. -/
def isVolatile : RegisterName → Bool
  | m | n => false
  | _ => true

end RegisterName

/-- The contents of the named registers. -/
structure RegisterFile where
  a : Register
  b : Register
  c : Register
  y : Register
  z : Register
  t : Register
  m : Register
  n : Register
  deriving DecidableEq, Repr

namespace RegisterFile

/-- Every register zero. -/
def zero : RegisterFile := ⟨.zero, .zero, .zero, .zero, .zero, .zero, .zero, .zero⟩

/-- The content of a register. -/
def get (rs : RegisterFile) : RegisterName → Register
  | .a => rs.a | .b => rs.b | .c => rs.c | .y => rs.y
  | .z => rs.z | .t => rs.t | .m => rs.m | .n => rs.n

/-- The registers with the content of one replaced. -/
def set (rs : RegisterFile) (x : Register) : RegisterName → RegisterFile
  | .a => { rs with a := x } | .b => { rs with b := x } | .c => { rs with c := x }
  | .y => { rs with y := x } | .z => { rs with z := x } | .t => { rs with t := x }
  | .m => { rs with m := x } | .n => { rs with n := x }

/-- The registers after clearing all that a clear reaches. -/
def clearVolatile (rs : RegisterFile) : RegisterFile :=
  { RegisterFile.zero with m := rs.m, n := rs.n }

/-- A register after a write to one of them. -/
@[simp] theorem get_set (rs : RegisterFile) (x : Register) (r s : RegisterName) :
    (rs.set x r).get s = if s = r then x else rs.get s := by
  cases r <;> cases s <;> rfl

end RegisterFile

/-! ## 6. Labels -/

/-- What a register is called in a dump: one of the eight, or a data register by number. -/
inductive RegisterLabel where
  | named (name : RegisterName)
  | cell (index : Nat)
  deriving DecidableEq, Repr

/-- The line that a dump shows for a register. -/
def RegisterLabel.describe : RegisterLabel → Register → String
  | .named name, r => "reg[" ++ name.text ++ "] = " ++ r.text
  | .cell index, r => "mem[" ++ Text.decimal 2 index ++ "] = " ++ r.text

end Calculator

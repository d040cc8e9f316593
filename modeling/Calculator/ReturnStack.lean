/-
# The return stack

Four return addresses in a ring.  A fifth push overwrites the oldest, and a pop past the bottom
comes round to whatever the ring still holds.
-/
import Calculator.Address

namespace Calculator

/-- The ring of return addresses and the cell that the next push fills. -/
structure ReturnStack where
  cells : Vector Address 4
  next : Nat
  deriving DecidableEq, Repr

namespace ReturnStack

/-- Four zeros. -/
def empty : ReturnStack := ⟨Vector.replicate 4 0, 0⟩

/-- Puts a return address on the stack. -/
def push (s : ReturnStack) (a : Address) : ReturnStack :=
  ⟨s.cells.setIfInBounds s.next a, (s.next + 1) % 4⟩

/-- The address on top of the stack. -/
def top (s : ReturnStack) : Address := s.cells.getD ((s.next + 3) % 4) 0

/-- The stack below its top. -/
def pop (s : ReturnStack) : ReturnStack := { s with next := (s.next + 3) % 4 }

/-- The address pushed last is on top. -/
theorem top_push (s : ReturnStack) (a : Address) (h : s.next < 4) : (s.push a).top = a := by
  have : ((s.next + 1) % 4 + 3) % 4 = s.next := by omega
  simp [push, top, this, Vector.getD, h]

/-- The top of the stack is one of its cells. -/
theorem top_mem (s : ReturnStack) : s.top ∈ s.cells := by
  have hlt : (s.next + 3) % 4 < 4 := Nat.mod_lt _ (by decide)
  simp [top, Vector.getD, hlt]

/-- A push leaves nothing on the stack but what was there and what was pushed. -/
theorem mem_or_eq_of_mem_push {s : ReturnStack} {a b : Address} (h : b ∈ (s.push a).cells) :
    b ∈ s.cells ∨ b = a := by
  have hcells := Array.mem_or_eq_of_mem_setIfInBounds ((Vector.mem_toArray_iff _ _).mpr h)
  exact hcells.imp_left (Vector.mem_toArray_iff _ _).mp

end ReturnStack

end Calculator

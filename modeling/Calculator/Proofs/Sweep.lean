/-
# Digit by digit

The adder does not see a span as a list.  It goes over the register itself, one position after the
other, and replaces each digit in place by what it makes of the digits that it reads there.  A sweep
does just that, and traps at a digit that the register does not have.  In a span that lies within the
register no sweep traps: along two operands it amounts to a splice (`sweep?_serial`), and so it does
where each digit is fetched from the neighbouring position of the very register that is being
replaced (`sweep?_above`, `sweep?_below`).
-/
import Calculator.Register.Serial

namespace Calculator

namespace Register

/-! ## 1. Single digits -/

/-- The digit at a position, if there is one. -/
def digit? (r : Register) (i : Nat) : Option Nat := r.digits[i]?

/-- The register with one digit replaced, if there is one at the position. -/
def put? (r : Register) (i d : Nat) : Option Register := if i < 14 then some (r.put i d) else none

theorem digit?_of_lt (r : Register) {i : Nat} (h : i < 14) : r.digit? i = some (r.digit i) := by
  rw [digit_of_lt r h]
  exact Vector.getElem?_eq_getElem h

theorem put?_of_lt (r : Register) {i : Nat} (h : i < 14) (d : Nat) :
    r.put? i d = some (r.put i d) :=
  if_pos h

theorem put_comm (r : Register) {i j : Nat} (h : i ≠ j) (d e : Nat) :
    (r.put i d).put j e = (r.put j e).put i d := by
  refine ext_digit ?_
  intro k hk
  simp only [digit_put _ _ _ hk]
  grind

/-! ## 2. Digits in a row -/

/-- The register with digits put in from position `lo` up. -/
def putAll (r : Register) (lo : Nat) : List Nat → Register
  | [] => r
  | d :: ds => (r.put lo d).putAll (lo + 1) ds

/-- The register with digits put in from position `lo` up, if there is one at each position. -/
def putAll? (r : Register) (lo : Nat) : List Nat → Option Register
  | [] => some r
  | d :: ds => do (← r.put? lo d).putAll? (lo + 1) ds

theorem putAll?_of_le (r : Register) {lo : Nat} {ds : List Nat} (h : lo + ds.length ≤ 14) :
    r.putAll? lo ds = some (r.putAll lo ds) := by
  induction ds generalizing r lo with
  | nil => rfl
  | cons d ds ih =>
    have hlen : lo + (ds.length + 1) ≤ 14 := h
    simp only [putAll?, put?_of_lt r (by omega : lo < 14), Option.bind_eq_bind, Option.bind_some]
    exact ih _ (by omega)

theorem digit_putAll (r : Register) (lo : Nat) (ds : List Nat) {i : Nat} (h : i < 14) :
    (r.putAll lo ds).digit i =
      if lo ≤ i then ds.getD (i - lo) (r.digit i) else r.digit i := by
  induction ds generalizing r lo with
  | nil => simp [putAll]
  | cons d ds ih =>
    rw [putAll, ih, digit_put r lo d h]
    rcases Nat.lt_trichotomy i lo with hlt | rfl | hgt
    · rw [if_neg (by omega), if_neg (by omega), if_neg (by omega)]
    · rw [if_neg (by omega), if_pos rfl, if_pos (Nat.le_refl i), Nat.sub_self]
      rfl
    · have hsub : i - lo = i - (lo + 1) + 1 := by omega
      rw [if_pos (by omega), if_neg (by omega), if_pos (by omega), hsub]
      rfl

/-- As many digits as the span has positions make a splice. -/
theorem putAll_eq_splice (r : Register) {s : Span} {ds : List Nat} (h : ds.length = s.width) :
    r.putAll s.first ds = r.splice s ds := by
  refine ext_digit ?_
  intro i hi
  rw [digit_putAll r s.first ds hi, digit_splice r s ds hi]
  have hwidth : ds.length = s.last + 1 - s.first := h
  by_cases hlast : i ≤ s.last
  · simp only [hlast, and_true]
  · rw [if_neg (c := _ ∧ _) fun hin => hlast hin.2, ite_eq_right_iff]
    intro hfirst
    rw [List.getD_eq_getElem?_getD, List.getElem?_eq_none (by omega)]
    rfl

/-- The digit above all others may as well be put in first. -/
theorem putAll_put (r : Register) {lo top : Nat} {ds : List Nat} (h : top = lo + ds.length)
    (d : Nat) : (r.put top d).putAll lo ds = r.putAll lo (ds ++ [d]) := by
  induction ds generalizing r lo with
  | nil =>
    subst h
    rfl
  | cons e ds ih =>
    have htop : top = lo + 1 + ds.length := by
      rw [h, List.length_cons]
      omega
    simp only [putAll, List.cons_append]
    rw [put_comm r (by omega : top ≠ lo), ih _ htop]

/-! ## 3. Sweeps -/

/-- Goes over positions in turn.  At each it replaces the digit by one that it finds, from what it
knows of the register at that moment and from the carry that it hands on. -/
def sweep? (find : Register → Nat → Bool → Option (Nat × Bool)) :
    List Nat → Bool → Register → Option (Register × Bool)
  | [], carry, r => some (r, carry)
  | i :: is, carry, r => do
    let (d, carry) ← find r i carry
    sweep? find is carry (← r.put? i d)

/-- What a one-digit operation makes of the digits of two operands. -/
def serial? (digit : Nat → Nat → Bool → Nat × Bool) (x y : Register) (_ : Register) (i : Nat)
    (carry : Bool) : Option (Nat × Bool) := do
  return digit (← x.digit? i) (← y.digit? i) carry

/-- The digit above, and zero at the last position. -/
def above? (last : Nat) (r : Register) (i : Nat) (carry : Bool) : Option (Nat × Bool) := do
  return (← if i = last then some 0 else r.digit? (i + 1), carry)

/-- The digit below, and zero at the first position. -/
def below? (first : Nat) (r : Register) (i : Nat) (carry : Bool) : Option (Nat × Bool) := do
  return (← if i = first then some 0 else if i = 0 then none else r.digit? (i - 1), carry)

variable {find : Register → Nat → Bool → Option (Nat × Bool)}

/-- One step of a sweep that finds its digit. -/
theorem sweep?_cons {i d : Nat} {is : List Nat} {carry carry' : Bool} {r : Register}
    (hi : i < 14) (hfind : find r i carry = some (d, carry')) :
    sweep? find (i :: is) carry r = sweep? find is carry' (r.put i d) := by
  simp only [sweep?, hfind, put?_of_lt r hi, Option.bind_eq_bind, Option.bind_some]

/-- The digits of consecutive positions. -/
def window (r : Register) (lo n : Nat) : List Nat := (List.range' lo n).map r.digit

theorem window_concat (r : Register) (lo n : Nat) :
    r.window lo (n + 1) = r.window lo n ++ [r.digit (lo + n)] := by
  simp [window, List.range'_concat]

@[simp] theorem length_window (r : Register) (lo n : Nat) : (r.window lo n).length = n := by
  simp [window]

/-- A digit replaced outside the window is not seen. -/
theorem window_put (r : Register) {i lo n : Nat} (h : i < lo ∨ lo + n ≤ i) (d : Nat) :
    (r.put i d).window lo n = r.window lo n := by
  refine List.map_congr_left ?_
  intro j hj
  obtain ⟨hlo, hhi⟩ := List.mem_range'_1.mp hj
  exact r.digit_put_of_ne (by omega) d

/-- A sweep along two operands. -/
theorem sweep?_range'_serial (digit : Nat → Nat → Bool → Nat × Bool) (x y r : Register)
    {lo n : Nat} (h : lo + n ≤ 14) (carry : Bool) :
    sweep? (serial? digit x y) (List.range' lo n) carry r =
      some (r.putAll lo (Serial.along digit carry (x.window lo n) (y.window lo n)).1,
        (Serial.along digit carry (x.window lo n) (y.window lo n)).2) := by
  induction n generalizing lo carry r with
  | zero => rfl
  | succ n ih =>
    have hlo : lo < 14 := by omega
    have hfind : serial? digit x y r lo carry = some (digit (x.digit lo) (y.digit lo) carry) := by
      simp only [serial?, digit?_of_lt _ hlo]
      rfl
    rw [List.range'_succ, sweep?_cons hlo hfind, ih _ (by omega)]
    rfl

/-- Upwards, each digit is still the old one when the position below it takes it over. -/
theorem sweep?_range'_above (r : Register) {lo n last : Nat} (h : lo + n = last + 1)
    (hlast : last < 14) (carry : Bool) :
    sweep? (above? last) (List.range' lo n) carry r =
      some (r.putAll lo (Serial.shiftDown (r.window lo n)), carry) := by
  induction n generalizing lo r with
  | zero => rfl
  | succ n ih =>
    have hlo : lo < 14 := by omega
    rw [List.range'_succ]
    cases n with
    | zero =>
      have hfind : above? last r lo carry = some (0, carry) := by
        simp [above?, show lo = last by omega]
      rw [sweep?_cons hlo hfind]
      rfl
    | succ n =>
      have hfind : above? last r lo carry = some (r.digit (lo + 1), carry) := by
        simp [above?, show lo ≠ last by omega, digit?_of_lt r (by omega : lo + 1 < 14)]
      rw [sweep?_cons hlo hfind, ih _ (by omega), window_put r (.inl (by omega))]
      rfl

/-- Downwards, each digit is still the old one when the position above it takes it over. -/
theorem sweep?_range'_below (r : Register) {lo n : Nat} (h : lo + n ≤ 14) (carry : Bool) :
    sweep? (below? lo) (List.range' lo n).reverse carry r =
      some (r.putAll lo (Serial.shiftUp (r.window lo n)), carry) := by
  induction n generalizing r with
  | zero => rfl
  | succ n ih =>
    have htop : lo + n < 14 := by omega
    have hreverse : (List.range' lo (n + 1)).reverse = (lo + n) :: (List.range' lo n).reverse := by
      simp [List.range'_concat]
    rw [hreverse]
    cases n with
    | zero =>
      have hfind : below? lo r (lo + 0) carry = some (0, carry) := by simp [below?]
      exact sweep?_cons htop hfind
    | succ n =>
      have hfind : below? lo r (lo + (n + 1)) carry = some (r.digit (lo + n), carry) := by
        simp [below?, digit?_of_lt r (by omega : lo + n < 14)]
      have hshift : Serial.shiftUp (r.window lo (n + 1 + 1))
          = Serial.shiftUp (r.window lo (n + 1)) ++ [r.digit (lo + n)] := by
        rw [window_concat r lo (n + 1), window_concat r lo n]
        simp [Serial.shiftUp, List.dropLast_cons_of_ne_nil]
      rw [sweep?_cons htop hfind, ih _ (by omega), window_put r (.inr (by omega)), hshift, putAll_put]
      simp

end Register

/-! ## 4. Spans -/

/-- The span is not empty and lies within the register. -/
def Span.Inside (s : Span) : Prop := s.first ≤ s.last ∧ s.last < 14

instance (s : Span) : Decidable s.Inside := inferInstanceAs (Decidable (_ ∧ _))

/-- A span that lies within the register ends with its last position. -/
theorem Span.Inside.first_add_width {s : Span} (h : s.Inside) : s.first + s.width = s.last + 1 := by
  have hwidth : s.width = s.last + 1 - s.first := rfl
  have hle := h.1
  omega

namespace Register

variable {s : Span}

/-- The digits of a span, if the register has them all. -/
def slice? (r : Register) (s : Span) : Option (List Nat) := s.positions.mapM r.digit?

theorem slice?_eq (r : Register) (h : s.Inside) : r.slice? s = some (r.slice s) := by
  have hall : ∀ is : List Nat, (∀ i ∈ is, i < 14) → is.mapM r.digit? = some (is.map r.digit) := by
    intro is his
    induction is with
    | nil => rfl
    | cons i is ih =>
      obtain ⟨hi, his⟩ := List.forall_mem_cons.mp his
      rw [List.mapM_cons, digit?_of_lt r hi, ih his]
      rfl
  refine hall s.positions ?_
  intro i hi
  have hlast := h.first_add_width ▸ (List.mem_range'_1.mp hi).2
  exact Nat.lt_of_lt_of_le hlast h.2

/-- **Along two operands a sweep makes a splice.** -/
theorem sweep?_serial (digit : Nat → Nat → Bool → Nat × Bool) (x y r : Register) (h : s.Inside)
    (carry : Bool) :
    sweep? (serial? digit x y) s.positions carry r =
      some (r.splice s (Serial.along digit carry (x.slice s) (y.slice s)).1,
        (Serial.along digit carry (x.slice s) (y.slice s)).2) := by
  have hlt : s.first + s.width ≤ 14 := h.first_add_width ▸ h.2
  have hlength : (Serial.along digit carry (x.slice s) (y.slice s)).1.length = s.width := by
    rw [Serial.length_along digit carry (by simp), length_slice]
  rw [← putAll_eq_splice r hlength]
  exact sweep?_range'_serial digit x y r hlt carry

theorem sweep?_above (r : Register) (h : s.Inside) (carry : Bool) :
    sweep? (above? s.last) s.positions carry r =
      some (r.splice s (Serial.shiftDown (r.slice s)), carry) := by
  rw [← putAll_eq_splice r (by simp)]
  exact r.sweep?_range'_above h.first_add_width h.2 carry

theorem sweep?_below (r : Register) (h : s.Inside) (carry : Bool) :
    sweep? (below? s.first) s.positions.reverse carry r =
      some (r.splice s (Serial.shiftUp (r.slice s)), carry) := by
  have hlt : s.first + s.width ≤ 14 := h.first_add_width ▸ h.2
  rw [← putAll_eq_splice r (by simp)]
  exact r.sweep?_range'_below hlt carry

end Register

end Calculator

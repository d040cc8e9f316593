/-
# Digit entry

A load constant puts a digit into `c` at the pointer and counts the pointer down, so a run of them
enters a number from its first digit on.  On a Woodstock or a Nut the pointer goes round in the
fourteen digits, and fourteen digits can be entered from anywhere.  On a Classic part it counts
through sixteen values, of which two are past the register: only the digits down to the lowest one
can be entered.  `Entered` is what such a run leaves behind, one digit at a time
(`Executes.entersDigit`, `Entered.cons`) and all of them (`digits_entered`).
-/
import Calculator.Proofs.DigitExchange

namespace Calculator

namespace Processor

variable {cpu mid last : Processor} {ds : List Nat} {os : List Outcome} {word d p m n i j : Nat}

/-! ## 1. Room for digits -/

/-- A pointer at `p` that counts down through `m` values passes over `n` digits of the register
without passing over one of them twice or leaving the register in between. -/
structure DigitRoom (m p n : Nat) : Prop where
  pointer_lt : p < m
  fits : m = 14 ∧ n ≤ 14 ∨ m = 16 ∧ (p < 14 ∧ n ≤ p + 1 ∨ n = 0)

theorem DigitRoom.lt (h : DigitRoom m p (n + 1)) : p < 14 := by
  have hp := h.pointer_lt
  rcases h.fits with ⟨rfl, -⟩ | ⟨rfl, hfits⟩
  · exact hp
  · omega

theorem DigitRoom.pred (h : DigitRoom m p (n + 1)) : DigitRoom m ((p + m - 1) % m) n := by
  rcases h.fits with ⟨rfl, hn⟩ | ⟨rfl, hfits⟩
  · exact ⟨Nat.mod_lt _ (by decide), .inl ⟨rfl, Nat.le_of_succ_le hn⟩⟩
  · exact ⟨Nat.mod_lt _ (by decide), .inr ⟨rfl, by omega⟩⟩

/-- The places of the later digits are those below the first one, which is none of them. -/
theorem DigitRoom.place_pred (h : DigitRoom m p (n + 1)) (hj : j < n) :
    ((p + m - 1) % m + 14 - j) % 14 = (p + 14 - (j + 1)) % 14 ∧ p ≠ (p + 14 - (j + 1)) % 14 := by
  have hp := h.pointer_lt
  rcases h.fits with ⟨rfl, hn⟩ | ⟨rfl, hfits⟩
  · omega
  · omega

theorem DigitRoom.pointer_pred (h : DigitRoom m p (n + 1)) :
    ((p + m - 1) % m + m - n) % m = (p + m - (n + 1)) % m := by
  have hp := h.pointer_lt
  rcases h.fits with ⟨rfl, hn⟩ | ⟨rfl, hfits⟩
  · omega
  · omega

/-- How many values the pointer takes in turn while it is counted down. -/
def pointerValues (cpu : Processor) : Nat :=
  match cpu.hardware.pointer with
  | .masked => 16
  | _ => 14

theorem pointerValues_eq (cpu : Processor) :
    cpu.pointerValues = if cpu.hardware.family = .classic then 16 else 14 := by
  unfold pointerValues hardware
  cases cpu.model <;> rfl

theorem pointerValues_congr (hmodel : mid.model = cpu.model) :
    mid.pointerValues = cpu.pointerValues := by
  unfold pointerValues hardware
  rw [hmodel]

theorem pointer_decrementPointer (hp : cpu.pointer < 14) :
    cpu.decrementPointer.pointer = (cpu.pointer + cpu.pointerValues - 1) % cpu.pointerValues := by
  unfold decrementPointer pointerValues
  cases cpu.hardware.pointer with
  | masked => exact pointer_setPointer cpu _
  | wrapping | previousOpcode =>
    refine (pointer_setPointer cpu _).trans ?_
    show (if cpu.pointer = 0 then 13 else cpu.pointer - 1) = (cpu.pointer + 14 - 1) % 14
    split <;> omega

/-! ## 2. What a run of digits leaves behind -/

/-- The pointer that is not in use. -/
def resting (cpu : Processor) : Nat :=
  match cpu.active with
  | .p => cpu.q
  | .q => cpu.p

/-- What entering digits from the pointer down has made of a processor whose pointer counts down
through `m` values. -/
structure Entered (m : Nat) (ds : List Nat) (cpu last : Processor) : Prop where
  digit : ∀ j, (h : j < ds.length) →
    (last.register .c).digit ((cpu.pointer + 14 - j) % 14) = ds[j]
  kept : ∀ i < 14, (∀ j < ds.length, i ≠ (cpu.pointer + 14 - j) % 14) →
    (last.register .c).digit i = (cpu.register .c).digit i
  pointer : last.pointer = (cpu.pointer + m - ds.length) % m
  resting : last.resting = cpu.resting
  /-- Nothing else has changed, no other register and no data register, but what every tick
  touches. -/
  frame : ChangesOnly (tickFootprint ++ [.register .c, .p, .q]) cpu last

theorem Entered.nil (hp : cpu.pointer < m) : Entered m [] cpu cpu where
  digit := fun _ h => absurd h (Nat.not_lt_zero _)
  kept := fun _ _ _ => rfl
  pointer := by
    rw [List.length_nil, Nat.sub_zero, Nat.add_mod_right, Nat.mod_eq_of_lt hp]
  resting := rfl
  frame := .refl _ cpu

theorem Entered.one (hp : cpu.pointer < 14)
    (hdigit : ∀ i < 14, (last.register .c).digit i =
      if i = cpu.pointer then d else (cpu.register .c).digit i)
    (hpointer : last.pointer = (cpu.pointer + m - 1) % m) (hresting : last.resting = cpu.resting)
    (hframe : ChangesOnly (tickFootprint ++ [.register .c, .p, .q]) cpu last) :
    Entered m [d] cpu last := by
  have hfirst : (cpu.pointer + 14 - 0) % 14 = cpu.pointer := by omega
  refine ⟨fun j hj => ?_, fun i hi hne => ?_, hpointer, hresting, hframe⟩
  · obtain rfl := Nat.lt_one_iff.mp hj
    rw [hfirst, hdigit _ hp, if_pos rfl]
    rfl
  · rw [hdigit i hi, if_neg (hfirst ▸ hne 0 Nat.one_pos)]

/-- A digit and a run of digits make a longer run. -/
theorem Entered.cons (h : Entered m [d] cpu mid) (h' : Entered m ds mid last)
    (hroom : DigitRoom m cpu.pointer (ds.length + 1)) : Entered m (d :: ds) cpu last := by
  have hlt := hroom.lt
  have hfirst : (cpu.pointer + 14 - 0) % 14 = cpu.pointer := by omega
  have hpointer : mid.pointer = (cpu.pointer + m - 1) % m := h.pointer
  -- the later digits go where the first one is not
  have hplace : ∀ j < ds.length,
      (mid.pointer + 14 - j) % 14 = (cpu.pointer + 14 - (j + 1)) % 14 ∧
        cpu.pointer ≠ (cpu.pointer + 14 - (j + 1)) % 14 := by
    rw [hpointer]
    exact fun j hj => hroom.place_pred hj
  constructor
  case digit =>
    intro j hj
    cases j with
    | zero =>
      have hkept := h'.kept cpu.pointer hlt fun j hj => (hplace j hj).1 ▸ (hplace j hj).2
      rw [hfirst, hkept]
      have hdigit := h.digit 0 Nat.one_pos
      rw [hfirst] at hdigit
      exact hdigit
    | succ j =>
      have hj' : j < ds.length := Nat.lt_of_succ_lt_succ hj
      rw [← (hplace j hj').1]
      exact h'.digit j hj'
  case kept =>
    intro i hi hne
    refine (h'.kept i hi fun j hj => ?_).trans (h.kept i hi fun j hj => ?_)
    · rw [(hplace j hj).1]
      exact hne (j + 1) (Nat.succ_lt_succ hj)
    · rw [Nat.lt_one_iff.mp hj]
      exact hne 0 (Nat.succ_pos _)
  case pointer =>
    rw [h'.pointer, hpointer]
    exact hroom.pointer_pred
  case resting => exact h'.resting.trans h.resting
  case frame => exact h.frame.trans h'.frame

/-! ## 3. One digit -/

theorem loadConstant_of_lt (hp : cpu.pointer < 14) :
    cpu.loadConstant d = .done (cpu.putFrom .c cpu.pointer [d]).decrementPointer :=
  if_pos hp

theorem setPointer_resting (cpu : Processor) (n : Nat) :
    (cpu.setPointer n).resting = cpu.resting := by
  unfold setPointer resting
  cases hactive : cpu.active <;> rfl

theorem ready_resting (cpu : Processor) : cpu.ready.resting = cpu.resting := by
  have hp : cpu.ready.p = cpu.p := cpu.changesOnly_ready .p (by simp)
  have hq : cpu.ready.q = cpu.q := cpu.changesOnly_ready .q (by simp)
  have hactive : cpu.ready.active = cpu.active := cpu.changesOnly_ready .active (by simp)
  unfold resting
  rw [hp, hq, hactive]

/-- Counting the pointer down leaves the other pointer alone. -/
theorem decrementPointer_resting (cpu : Processor) :
    cpu.decrementPointer.resting = cpu.resting := by
  unfold decrementPointer
  cases cpu.hardware.pointer <;> exact cpu.setPointer_resting _

theorem register_decrementPointer (cpu : Processor) (r : RegisterName) :
    cpu.decrementPointer.register r = cpu.register r :=
  cpu.changesOnly_decrementPointer (.register r) (by simp)

theorem digit_putFrom_singleton (cpu : Processor) (r : RegisterName) (hi : i < 14) :
    ((cpu.putFrom r p [d]).register r).digit i =
      if i = p then d else (cpu.register r).digit i := by
  rw [digit_putFrom _ _ _ _ hi]
  by_cases hip : i = p
  · subst hip
    rw [if_pos rfl, Nat.sub_self, if_pos ⟨Nat.le_refl i, Nat.le_refl i⟩]
    rfl
  · rw [if_neg hip, if_neg]
    rintro ⟨hlo, hhi⟩
    exact hip (Nat.le_antisymm hhi hlo)

/-- A tick that enters a digit within the register has nothing to tell. -/
theorem Executes.entersDigit (hi : cpu.Executes word (.digit (.loadConstant d)))
    (hp : cpu.pointer < 14) :
    cpu.tick.fault = none ∧ cpu.tick.warnings = [] ∧
      Entered cpu.pointerValues [d] cpu cpu.tick.cpu := by
  have hp' : cpu.ready.pointer < 14 := cpu.ready_pointer ▸ hp
  have hrun : cpu.ready.run (.digit (.loadConstant d)) =
      .done (cpu.ready.putFrom .c cpu.pointer [d]).decrementPointer :=
    cpu.ready_pointer ▸ loadConstant_of_lt hp'
  have hframe := hi.tick_changesOnly (cpu.ready.run_changesOnly _)
  have hdigit : ∀ i < 14, (cpu.tick.cpu.register .c).digit i =
      if i = cpu.pointer then d else (cpu.register .c).digit i := by
    intro i hlt
    rw [hi.tick_eq.1, hrun]
    show ((cpu.ready.putFrom .c cpu.pointer [d]).decrementPointer.register .c).digit i = _
    rw [register_decrementPointer, digit_putFrom_singleton _ _ hlt,
      cpu.changesOnly_ready (.register .c) (by simp)]
  have hpointer : cpu.tick.cpu.pointer =
      (cpu.pointer + cpu.pointerValues - 1) % cpu.pointerValues := by
    rw [hi.tick_eq.1, hrun]
    have hput : (cpu.ready.putFrom .c cpu.pointer [d]).pointer = cpu.pointer := cpu.ready_pointer
    have hvalues : (cpu.ready.putFrom .c cpu.pointer [d]).pointerValues = cpu.pointerValues :=
      pointerValues_congr cpu.ready_model
    have hdown := pointer_decrementPointer (hput ▸ hp)
    rw [hput, hvalues] at hdown
    exact hdown
  have hresting : cpu.tick.cpu.resting = cpu.resting := by
    rw [hi.tick_eq.1, hrun]
    exact (decrementPointer_resting _).trans cpu.ready_resting
  rw [hi.warnings_eq, hi.tick_eq.2, hrun]
  exact ⟨rfl, rfl, .one hp hdigit hpointer hresting hframe⟩

/-! ## 4. A run of digits -/

/-- Ticks in a row that enter the digits, with what each of them tells. -/
inductive EntersDigits : List Nat → List Outcome → Processor → Processor → Prop
  | nil {cpu : Processor} : EntersDigits [] [] cpu cpu
  | cons {ds : List Nat} {os : List Outcome} {cpu last : Processor} {word d : Nat}
      (digit : cpu.Executes word (.digit (.loadConstant d)))
      (digits : EntersDigits ds os cpu.tick.cpu last) :
      EntersDigits (d :: ds) (cpu.tick :: os) cpu last

theorem EntersDigits.entered (h : EntersDigits ds os cpu last)
    (hroom : DigitRoom cpu.pointerValues cpu.pointer ds.length) :
    (∀ o ∈ os, o.fault = none ∧ o.warnings = []) ∧ Entered cpu.pointerValues ds cpu last := by
  induction h with
  | nil => exact ⟨fun o ho => absurd ho List.not_mem_nil, .nil hroom.pointer_lt⟩
  | @cons ds os cpu last word d hdigit hdigits ih =>
    obtain ⟨hfault, hwarnings, hentered⟩ := hdigit.entersDigit hroom.lt
    have hvalues : cpu.tick.cpu.pointerValues = cpu.pointerValues :=
      pointerValues_congr cpu.tick_model
    have hpred : cpu.tick.cpu.pointer = (cpu.pointer + cpu.pointerValues - 1) % cpu.pointerValues :=
      hentered.pointer
    rw [hvalues, hpred] at ih
    obtain ⟨hfine, hrest⟩ := ih hroom.pred
    refine ⟨?_, hentered.cons hrest hroom⟩
    intro o ho
    rcases List.mem_cons.mp ho with rfl | ho
    · exact ⟨hfault, hwarnings⟩
    · exact hfine o ho

/-- **What a run of load constants enters**, from a pointer within the register.  A Woodstock or a
Nut takes up to fourteen digits, a Classic part the digits down to the lowest one.  No tick fails or
warns, the digits stand in `c` from the pointer down, and the rest of `c`, the other registers and
the pointer that is not in use are as they were. -/
theorem digits_entered (h : EntersDigits ds os cpu last) (hp : cpu.pointer ≤ 13) :
    (cpu.hardware.family ≠ .classic → ds.length ≤ 14 →
      (∀ o ∈ os, o.fault = none ∧ o.warnings = []) ∧ Entered 14 ds cpu last) ∧
    (cpu.hardware.family = .classic → ds.length ≤ cpu.pointer + 1 →
      (∀ o ∈ os, o.fault = none ∧ o.warnings = []) ∧ Entered 16 ds cpu last) := by
  have hlt : cpu.pointer < 14 := Nat.lt_succ_of_le hp
  refine ⟨fun hfamily hlength => ?_, fun hfamily hlength => ?_⟩
  · have hvalues : cpu.pointerValues = 14 := by rw [pointerValues_eq, if_neg hfamily]
    have hroom : DigitRoom cpu.pointerValues cpu.pointer ds.length :=
      hvalues ▸ ⟨hlt, .inl ⟨rfl, hlength⟩⟩
    exact hvalues ▸ h.entered hroom
  · have hvalues : cpu.pointerValues = 16 := by rw [pointerValues_eq, if_pos hfamily]
    have hroom : DigitRoom cpu.pointerValues cpu.pointer ds.length :=
      hvalues ▸ ⟨by omega, .inr ⟨rfl, .inl ⟨hlt, hlength⟩⟩⟩
    exact hvalues ▸ h.entered hroom

/-- From the lowest digit, an HP-25 enters a second and a third at the top; an HP-45 that has
entered one stands past the register. -/
theorem digits_entered_from_zero :
    let hp25 := new .hp25 ⟨#[0o130, 0o230, 0o330]⟩
    let three := hp25.tick.cpu.tick.cpu.tick.cpu
    let hp45 := new .hp45 ⟨#[0o130]⟩
    let one := hp45.tick.cpu
    ((three.register .c).digit 0 = 1 ∧ (three.register .c).digit 13 = 2 ∧
      (three.register .c).digit 12 = 3 ∧ three.pointer = 11) ∧
    (one.register .c).digit 0 = 1 ∧ one.pointer = 15 := by
  intro hp25 three hp45 one
  constructor
  · have hfirst : hp25.Executes 0o130 (.digit (.loadConstant 1)) :=
      ⟨by decide +kernel, by decide +kernel, rfl⟩
    have hsecond : hp25.tick.cpu.Executes 0o230 (.digit (.loadConstant 2)) :=
      ⟨by decide +kernel, by decide +kernel, tick_hardware hp25 ▸ rfl⟩
    have hthird : hp25.tick.cpu.tick.cpu.Executes 0o330 (.digit (.loadConstant 3)) :=
      ⟨by decide +kernel, by decide +kernel,
        ((tick_hardware hp25.tick.cpu).trans (tick_hardware hp25)) ▸ rfl⟩
    have hrun := EntersDigits.cons hfirst (.cons hsecond (.cons hthird .nil))
    have hentered := ((digits_entered hrun (by decide)).1 (by decide) (by decide)).2
    have hplaces := hentered.digit
    have hpointer := hentered.pointer
    rw [show hp25.pointer = 0 from rfl] at hplaces hpointer
    exact ⟨hplaces 0 (by decide), hplaces 1 (by decide), hplaces 2 (by decide), hpointer⟩
  · have hfirst : hp45.Executes 0o130 (.digit (.loadConstant 1)) :=
      ⟨by decide +kernel, by decide +kernel, rfl⟩
    have hrun := EntersDigits.cons hfirst .nil
    have hentered := ((digits_entered hrun (by decide)).2 rfl (by decide)).2
    have hplaces := hentered.digit
    have hpointer := hentered.pointer
    rw [show hp45.pointer = 0 from rfl] at hplaces hpointer
    exact ⟨hplaces 0 (by decide), hpointer⟩

end Processor

end Calculator

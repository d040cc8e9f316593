/-
# Text on the printer

Text is packed into a register as a stream of bits: bit `t` of the stream is bit `t % 4` of digit
`t / 4`, and the `k`th code has the six bits from `6 * k` on.  The digits are gone through two codes
at a time, which lie across three digits, and all the same every bit below the fifty-fourth comes
out in one code (`existsUnique_testBit_code`).

A register gives a code after the other, through the first blank or through the ninth.  The printer
writes them to the left of its head and stops early if it comes to the end of the line
(`printAlpha_writes`).
-/
import Calculator.Proofs.PrinterLine

namespace Calculator

/-! ## 1. The stream of bits -/

/-- A digit holds four bits of what the digits stand for. -/
theorem FourBits.testBit_ofDigits {ds : List Nat} (h : FourBits ds) (t : Nat) :
    (Nat.ofDigits 0x10 ds).testBit t = (ds.getD (t / 4) 0).testBit (t % 4) := by
  induction ds generalizing t with
  | nil => simp
  | cons d ds ih =>
    obtain ⟨hd, hds⟩ := List.forall_mem_cons.mp h
    have hsplit : Nat.ofDigits 0x10 (d :: ds) = 2 ^ 4 * Nat.ofDigits 0x10 ds + d :=
      Nat.add_comm _ _
    rw [hsplit, Nat.testBit_two_pow_mul_add _ hd]
    split
    next hlow => rw [Nat.div_eq_of_lt hlow, Nat.mod_eq_of_lt hlow, List.getD_cons_zero]
    next hhigh =>
      have hpast : t = t - 4 + 4 := by omega
      rw [ih hds, hpast, Nat.add_sub_cancel, Nat.add_div_right _ (by decide), Nat.add_mod_right,
        List.getD_cons_succ]

namespace Register

variable {r : Register} {k t : Nat}

/-- One of the codes packed into a register. -/
def code (r : Register) (k : Nat) : Nat := r.value / 64 ^ k % 64

theorem length_codes (r : Register) : r.codes.length = 9 := by simp [codes]

theorem getElem_codes (r : Register) (hk : k < r.codes.length) : r.codes[k] = r.code k := by
  simp [codes, code]

theorem FourBit.testBit_value (h : r.FourBit) (t : Nat) :
    r.value.testBit t = (r.digit (t / 4)).testBit (t % 4) := by
  rw [value, h.fourBits.testBit_ofDigits, List.getD_eq_getElem?_getD, digit, Vector.getD,
    Array.getD_eq_getD_getElem?, ← Array.getElem?_toList]
  rfl

/-- The window of a code. -/
theorem testBit_code (r : Register) (k b : Nat) :
    (r.code k).testBit b = (decide (b < 6) && r.value.testBit (6 * k + b)) := by
  have hwindow : r.code k = r.value / 2 ^ (6 * k) % 2 ^ 6 := by
    rw [Nat.pow_mul]
    rfl
  rw [hwindow, Nat.testBit_mod_two_pow, Nat.testBit_div_two_pow, Nat.add_comm]

/-- **Every bit comes out in one code.** -/
theorem FourBit.existsUnique_testBit_code (h : r.FourBit) (ht : t < 54) :
    ∃! k, k < 9 ∧ ∃ b < 6, t = 6 * k + b ∧
      (r.code k).testBit b = (r.digit (t / 4)).testBit (t % 4) := by
  refine ⟨t / 6, ⟨by omega, t % 6, Nat.mod_lt t (by decide), (Nat.div_add_mod t 6).symm, ?_⟩, ?_⟩
  · rw [testBit_code, decide_eq_true (Nat.mod_lt t (by decide)), Bool.true_and, Nat.div_add_mod,
      h.testBit_value]
  · rintro k ⟨-, b, hb, rfl, -⟩
    omega

/-! ## 2. The codes that are due -/

/-- A code is due if it is one of the nine and no code before it is a blank. -/
def Due (r : Register) (k : Nat) : Prop := k < 9 ∧ ∀ j < k, r.code j ≠ Printer.blank

instance (r : Register) (k : Nat) : Decidable (r.Due k) := inferInstanceAs (Decidable (_ ∧ _))

end Register

namespace Printer

open Register (Due)

theorem lt_length_throughBlank_iff {codes : List Nat} {k : Nat} :
    k < (throughBlank codes).length ↔ k < codes.length ∧ ∀ j < k, codes.getD j 0 ≠ blank := by
  induction codes generalizing k with
  | nil => simp [throughBlank]
  | cons code codes ih =>
    cases k with
    | zero =>
      have hsome : 0 < (throughBlank (code :: codes)).length := by
        unfold throughBlank
        split <;> exact Nat.zero_lt_succ _
      exact iff_of_true hsome ⟨Nat.zero_lt_succ _, nofun⟩
    | succ k =>
      unfold throughBlank
      split
      next hblank =>
        -- nothing comes after the blank
        refine iff_of_false (by simp) ?_
        rintro ⟨-, hbefore⟩
        exact hbefore 0 (Nat.zero_lt_succ k) hblank
      next hcode =>
        rw [List.length_cons, List.length_cons, Nat.succ_lt_succ_iff, Nat.succ_lt_succ_iff, ih,
          Nat.forall_lt_succ_left]
        exact and_congr_right fun _ => (and_iff_right hcode).symm

theorem throughBlank_isPrefix (codes : List Nat) : throughBlank codes <+: codes := by
  rw [throughBlank_eq_take]
  exact List.take_prefix ..

/-- The codes that come out of a register are those that are due. -/
theorem due_iff {r : Register} {k : Nat} : r.Due k ↔ k < (throughBlank r.codes).length := by
  rw [lt_length_throughBlank_iff, r.length_codes]
  refine and_congr_right fun hk => forall₂_congr fun j hj => ?_
  have hlt : j < r.codes.length := r.length_codes.symm ▸ hj.trans hk
  rw [List.getD_eq_getElem?_getD, List.getElem?_eq_getElem hlt, Option.getD_some, r.getElem_codes]

theorem getElem_throughBlank_codes (r : Register) {k : Nat}
    (hk : k < (throughBlank r.codes).length) : (throughBlank r.codes)[k] = r.code k :=
  ((throughBlank_isPrefix r.codes).getElem hk).trans (r.getElem_codes _)

/-! ## 3. Writing -/

/-- What comes of writing codes as long as they are due: a number of them stand to the left of the
old head, the first of them next to it, and no other cell is touched. -/
structure Writes (p : Printer) (due : Nat → Prop) (code : Nat → Nat) (n : Nat)
    (result : Printer × Bool) : Prop where
  due_of_lt : ∀ k < n, due k
  head_eq : result.1.head + n = p.head
  cells_eq : ∀ i (hi : i < 20), result.1.cells[i] =
    if result.1.head ≤ i ∧ i < p.head then code (p.head - 1 - i) else p.cells[i]
  mode_eq : result.1.mode = p.mode
  printed_eq : result.1.printed = p.printed
  /-- It ends where no code is due or where the line is full. -/
  ends : due n → result.1.head = 0
  /-- The reply is no if a code was due and there was no room for it. -/
  reply : result.2 = false ↔ due n ∧ result.1.head = 0

variable {p : Printer} {due : Nat → Prop} {code : Nat → Nat} {n : Nat}

theorem Writes.none (hdue : ¬due 0) : p.Writes due code 0 (p, true) where
  due_of_lt := nofun
  head_eq := rfl
  cells_eq _ _ := (if_neg fun h => absurd h.1 (Nat.not_le_of_lt h.2)).symm
  mode_eq := rfl
  printed_eq := rfl
  ends h := absurd h hdue
  reply := ⟨nofun, fun h => absurd h.1 hdue⟩

theorem Writes.full (hdue : due 0) (hfull : p.head = 0) : p.Writes due code 0 (p, false) where
  due_of_lt := nofun
  head_eq := rfl
  cells_eq _ _ := (if_neg fun h => absurd h.1 (Nat.not_le_of_lt h.2)).symm
  mode_eq := rfl
  printed_eq := rfl
  ends _ := hfull
  reply := ⟨fun _ => ⟨hdue, hfull⟩, fun _ => rfl⟩

/-- One code is written, and then the others. -/
theorem Writes.cons (hdue : due 0) (hroom : p.head ≠ 0) {result : Printer × Bool}
    (h : (p.put (code 0)).Writes (fun k => due (k + 1)) (fun k => code (k + 1)) n result) :
    p.Writes due code (n + 1) result := by
  have hhead : result.1.head + n = p.head - 1 := h.head_eq
  refine ⟨?_, by omega, ?_, h.mode_eq, h.printed_eq, h.ends, h.reply⟩
  · intro k hk
    cases k with
    | zero => exact hdue
    | succ k => exact h.due_of_lt k (Nat.lt_of_succ_lt_succ hk)
  · intro i hi
    have hput : (p.put (code 0)).cells[i] = if p.head - 1 = i then code 0 else p.cells[i] :=
      Vector.getElem_setIfInBounds ..
    rw [h.cells_eq i hi, hput]
    show (if result.1.head ≤ i ∧ i < p.head - 1 then code (p.head - 1 - 1 - i + 1) else _) = _
    rcases Nat.lt_trichotomy i (p.head - 1) with hlt | hlast | hgt
    · have hnext : p.head - 1 - 1 - i + 1 = p.head - 1 - i := by omega
      have hbefore : i < p.head := by omega
      simp only [hlt, hbefore, hnext, hlt.ne', if_false]
    · have hwritten : result.1.head ≤ i ∧ i < p.head := by omega
      rw [if_neg (by omega), if_pos hlast.symm, if_pos hwritten, hlast, Nat.sub_self]
    · rw [if_neg (by omega), if_neg (by omega), if_neg (by omega)]

/-- **Codes are written one by one, while there is room.** -/
theorem write_writes {codes : List Nat} (hdue : ∀ k, due k ↔ k < codes.length)
    (hcode : ∀ k (hk : k < codes.length), codes[k] = code k) :
    ∃ n, p.Writes due code n (p.write codes) := by
  induction codes generalizing p due code with
  | nil => exact ⟨0, .none fun h => Nat.not_lt_zero 0 ((hdue 0).mp h)⟩
  | cons first codes ih =>
    have hfirst : due 0 := (hdue 0).mpr (Nat.zero_lt_succ _)
    unfold write
    split
    next hfull => exact ⟨0, .full hfirst hfull⟩
    next hroom =>
      obtain rfl : first = code 0 := hcode 0 (Nat.zero_lt_succ _)
      have hrest : ∃ n, (p.put (code 0)).Writes (fun k => due (k + 1)) (fun k => code (k + 1)) n
          ((p.put (code 0)).write codes) :=
        ih (fun k => (hdue (k + 1)).trans Nat.succ_lt_succ_iff) fun k hk =>
          hcode (k + 1) (Nat.succ_lt_succ hk)
      obtain ⟨n, hrest⟩ := hrest
      exact ⟨n + 1, .cons hfirst hroom hrest⟩

/-- **Text is written code by code.**  The codes are the windows of six bits in the number that the
register stands for, each bit of the first fifty-four in one of them.  They go to the left of what
is on the line, the lowest first, through the first blank or through the ninth; if the line is full
before that, the reply says that there was no room. -/
theorem printAlpha_writes {r : Register} (h : r.FourBit) (p : Printer) :
    (∃ n, p.Writes r.Due r.code n (p.printAlpha r)) ∧
    ∀ t < 54, ∃! k, k < 9 ∧ ∃ b < 6, t = 6 * k + b ∧
      (r.code k).testBit b = (r.digit (t / 4)).testBit (t % 4) := by
  refine ⟨?_, fun t ht => h.existsUnique_testBit_code ht⟩
  unfold printAlpha
  rw [unpack_digits h]
  exact write_writes (fun _ => due_iff) fun _ => getElem_throughBlank_codes r

/-- The letter A and a blank. -/
theorem printAlpha_writes_letter :
    let letter : Register := ⟨#v[0x8, 0xe, 0xf, 0, 0, 0, 0, 0, 0, 0, 0, 0, 0, 0]⟩
    letter.FourBit ∧ letter.code 0 = 0x28 ∧ letter.code 1 = blank ∧
      (new.printAlpha letter).1.head = 18 ∧ (new.printAlpha letter).2 = true := by
  intro letter
  have hfour : letter.FourBit := Register.fourBit_of_lt (by decide)
  obtain ⟨⟨n, hwrites⟩, -⟩ := printAlpha_writes hfour new
  have hhead : (new.printAlpha letter).1.head + n = 20 := hwrites.head_eq
  -- two codes are due, and there is room for twenty
  have hdue : ∀ k < 2, letter.Due k := by decide
  have hend : ¬letter.Due 2 := by decide
  have hle : n ≤ 2 := Nat.le_of_not_lt fun hmore => hend (hwrites.due_of_lt 2 hmore)
  have hge : 2 ≤ n := by
    refine Nat.le_of_not_lt fun hless => ?_
    have hfull := hwrites.ends (hdue n hless)
    omega
  obtain rfl : n = 2 := Nat.le_antisymm hle hge
  refine ⟨hfour, by decide, by decide, Nat.add_right_cancel hhead, ?_⟩
  rw [← Bool.not_eq_false, hwrites.reply]
  exact fun hno => hend hno.1

end Printer

end Calculator

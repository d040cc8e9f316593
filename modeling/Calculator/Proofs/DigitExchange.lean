/-
# The register g

Three instructions move the digits of `c` at the pointer and above it to g, from g, or both ways.
Below the top digit an exchange is the two moves in one, and doing it twice undoes it.  At the top
digit there is only one digit to move, and the three differ: the move to g leaves the upper digit of
g alone, while an exchange makes it zero, so that a second exchange does not bring it back
(`exchange_at_pointer`).
-/
import Calculator.Proofs.Fault
import Calculator.Proofs.RepeatedIncrement

namespace Calculator

namespace Processor

variable {cpu cpu' : Processor} {word word' pt i : Nat}

/-! ## 1. One digit at a time -/

/-- What stands in a register once digits have been put there. -/
theorem digit_putFrom (cpu : Processor) (r : RegisterName) (lo : Nat) (ds : List Nat)
    (hi : i < 14) : ((cpu.putFrom r lo ds).register r).digit i =
      if lo ≤ i ∧ i ≤ lo + ds.length - 1 then ds.getD (i - lo) ((cpu.register r).digit i)
      else (cpu.register r).digit i := by
  unfold putFrom putDigits
  rw [register_setRegister, if_pos rfl]
  exact Register.digit_splice _ _ _ hi

/-- What stands in `c` once g has been put there. -/
theorem digit_putG (cpu : Processor) (hpt : pt < 14) (hi : i < 14) :
    ((cpu.putG pt).register .c).digit i =
      if i = pt then cpu.g.1 else if i = pt + 1 then cpu.g.2 else (cpu.register .c).digit i := by
  unfold putG
  rw [digit_putFrom _ _ _ _ hi]
  rcases Nat.lt_trichotomy i pt with hbelow | rfl | habove
  · rw [if_neg (by omega), if_neg (by omega), if_neg (by omega)]
  · rw [if_pos rfl, Nat.sub_self]
    split
    · exact if_pos ⟨Nat.le_refl i, Nat.le_succ i⟩
    · exact if_pos ⟨Nat.le_refl i, Nat.le_refl i⟩
  · rw [if_pos (by omega : pt < 13), if_neg (by omega : i ≠ pt)]
    by_cases hnext : i = pt + 1
    · subst hnext
      rw [if_pos rfl, if_pos ⟨Nat.le_succ pt, Nat.le_refl (pt + 1)⟩, Nat.add_sub_cancel_left]
      rfl
    · rw [if_neg hnext, if_neg]
      rintro ⟨-, hlast⟩
      exact hnext (Nat.le_antisymm hlast habove)

/-- Putting g into `c` looks at nothing else. -/
theorem register_putG_congr (hc : cpu'.register .c = cpu.register .c) (hg : cpu'.g = cpu.g)
    (hpt : pt < 14) : (cpu'.putG pt).register .c = (cpu.putG pt).register .c := by
  refine Register.ext_digit fun i hi => ?_
  rw [digit_putG _ hpt hi, digit_putG _ hpt hi, hc, hg]

theorem changesOnly_exchangeG (cpu : Processor) (pt : Nat) :
    ChangesOnly [.register .c, .g] cpu (cpu.exchangeG pt) :=
  (cpu.changesOnly_putG pt).append (changesOnly_g _ _)

theorem pointer_exchangeG (cpu : Processor) (pt : Nat) :
    (cpu.exchangeG pt).pointer = cpu.pointer := by
  have hchange := cpu.changesOnly_exchangeG pt
  have hp : (cpu.exchangeG pt).p = cpu.p := hchange .p (by simp)
  have hq : (cpu.exchangeG pt).q = cpu.q := hchange .q (by simp)
  have hactive : (cpu.exchangeG pt).active = cpu.active := hchange .active (by simp)
  unfold pointer
  rw [hp, hq, hactive]

theorem register_exchangeG (cpu : Processor) (pt : Nat) :
    (cpu.exchangeG pt).register .c = (cpu.putG pt).register .c :=
  changesOnly_g _ _ (.register .c) (by simp)

theorem g_exchangeG (cpu : Processor) (pt : Nat) : (cpu.exchangeG pt).g =
    ((cpu.register .c).digit pt, if pt < 13 then (cpu.register .c).digit (pt + 1) else 0) := rfl

/-- An exchange takes for g what the move to g takes, but makes the upper digit zero where there is
none to take. -/
theorem g_exchangeG_eq (cpu : Processor) (pt : Nat) : (cpu.exchangeG pt).g =
    if pt < 13 then cpu.gTaken pt else ((cpu.gTaken pt).1, 0) := by
  rw [g_exchangeG]
  unfold gTaken
  split
  · rfl
  · rfl

/-- An exchange puts back into `c` what an exchange has taken from there. -/
theorem register_exchangeG_exchangeG (cpu : Processor) (hpt : pt < 14) :
    ((cpu.exchangeG pt).exchangeG pt).register .c = cpu.register .c := by
  refine Register.ext_digit fun i hi => ?_
  rw [register_exchangeG, digit_putG _ hpt hi, g_exchangeG, register_exchangeG, digit_putG _ hpt hi]
  by_cases hlow : i = pt
  · rw [if_pos hlow, hlow]
  · rw [if_neg hlow, if_neg hlow]
    by_cases hhigh : i = pt + 1
    · rw [if_pos hhigh, if_pos (by omega : pt < 13), hhigh]
    · rw [if_neg hhigh, if_neg hhigh]

theorem g_exchangeG_exchangeG (cpu : Processor) (hpt : pt < 14) :
    ((cpu.exchangeG pt).exchangeG pt).g = (cpu.g.1, if pt < 13 then cpu.g.2 else 0) := by
  rw [g_exchangeG, register_exchangeG, digit_putG _ hpt hpt, if_pos rfl]
  split
  · rw [digit_putG _ hpt (by omega), if_neg (Nat.succ_ne_self pt), if_pos rfl]
  · rfl

/-! ## 2. The three instructions -/

/-- Two processors that have the same digits to move. -/
structure SameDigits (cpu cpu' : Processor) : Prop where
  pointer : cpu'.pointer = cpu.pointer
  c : cpu'.register .c = cpu.register .c
  g : cpu'.g = cpu.g

theorem SameDigits.refl (cpu : Processor) : SameDigits cpu cpu := ⟨rfl, rfl, rfl⟩

theorem sameDigits_ready (cpu : Processor) : SameDigits cpu cpu.ready where
  pointer := cpu.ready_pointer
  c := cpu.changesOnly_ready (.register .c) (by simp)
  g := cpu.changesOnly_ready .g (by simp)

theorem SameDigits.trans {cpu'' : Processor} (h : SameDigits cpu cpu')
    (h' : SameDigits cpu' cpu'') : SameDigits cpu cpu'' :=
  ⟨h'.pointer.trans h.pointer, h'.c.trans h.c, h'.g.trans h.g⟩

theorem sameDigits_opcode (cpu : Processor) (word : Nat) :
    SameDigits cpu { cpu with opcode := word } := ⟨rfl, rfl, rfl⟩

theorem SameDigits.gTaken (h : SameDigits cpu cpu') (pt : Nat) :
    cpu'.gTaken pt = cpu.gTaken pt := by
  unfold Processor.gTaken
  rw [h.c, h.g]

theorem SameDigits.exchangeG (h : SameDigits cpu cpu') (hpt : pt < 14) :
    SameDigits (cpu.exchangeG pt) (cpu'.exchangeG pt) := by
  refine ⟨?_, ?_, ?_⟩
  · rw [pointer_exchangeG, pointer_exchangeG, h.pointer]
  · rw [register_exchangeG, register_exchangeG]
    exact register_putG_congr h.c h.g hpt
  · rw [g_exchangeG, g_exchangeG, h.c]

/-- A tick that works at a pointer within the register. -/
theorem Executes.at_pointer {d : DigitOp} {act : Nat → Processor}
    (hi : cpu.Executes word (.digit d)) (hact : cpu.ready.runDigit d = cpu.ready.atPointer act)
    (hpt : cpu.pointer < 14) :
    cpu.tick.fault = none ∧ cpu.tick.cpu = { act cpu.pointer with opcode := word } := by
  have hrun : cpu.ready.run (.digit d) = .done (act cpu.pointer) := by
    refine hact.trans ?_
    unfold atPointer
    rw [ready_pointer]
    exact if_pos hpt
  obtain ⟨htick, hfault⟩ := hi.tick_eq
  rw [hrun] at htick hfault
  exact ⟨hfault, htick⟩

theorem Executes.exchangeG (hi : cpu.Executes word (.digit .exchangeCG)) (hpt : cpu.pointer < 14) :
    cpu.tick.fault = none ∧ SameDigits (cpu.exchangeG cpu.pointer) cpu.tick.cpu := by
  obtain ⟨hfault, htick⟩ := hi.at_pointer rfl hpt
  rw [htick]
  exact ⟨hfault, (cpu.sameDigits_ready.exchangeG hpt).trans (sameDigits_opcode _ word)⟩

theorem Executes.gFromC (hi : cpu.Executes word (.digit .gFromC)) (hpt : cpu.pointer < 14) :
    cpu.tick.fault = none ∧ cpu.tick.cpu.g = cpu.gTaken cpu.pointer := by
  have hrun : cpu.ready.runDigit .gFromC =
      cpu.ready.atPointer fun pt => { cpu.ready with g := cpu.ready.gTaken pt } := rfl
  obtain ⟨hfault, htick⟩ := hi.at_pointer hrun hpt
  rw [htick]
  exact ⟨hfault, cpu.sameDigits_ready.gTaken cpu.pointer⟩

theorem Executes.cFromG (hi : cpu.Executes word (.digit .cFromG)) (hpt : cpu.pointer < 14) :
    cpu.tick.fault = none ∧
      cpu.tick.cpu.register .c = (cpu.putG cpu.pointer).register .c := by
  obtain ⟨hfault, htick⟩ := hi.at_pointer rfl hpt
  have hput := register_putG_congr cpu.sameDigits_ready.c cpu.sameDigits_ready.g hpt
  rw [htick]
  exact ⟨hfault, (sameDigits_opcode _ word).c.trans hput⟩

/-- An exchange differs from a nop in `c` and g alone. -/
theorem Executes.exchangeG_changesOnly (hi : cpu.Executes word (.digit .exchangeCG)) :
    ChangesOnly [.register .c, .g, .opcode] cpu.afterNop cpu.tick.cpu := by
  have hnop : ChangesOnly [.opcode] cpu.afterNop cpu.ready := by
    rw [afterNop_eq hi.isRunning hi.word_eq]
    exact changesOnly_opcode _ cpu.ready.opcode
  have hrun := hnop.append (cpu.ready.run_changesOnly (.digit .exchangeCG))
  rw [hi.tick_eq.1]
  exact (hrun.append (changesOnly_opcode _ word)).mono (by simp)

/-- **An exchange at the pointer** puts g into `c` as the move to `c` does.  It takes from `c` what
the move to g takes, save that at the top digit the upper digit of g is lost.  A second exchange
restores `c`, and g as far as it is not lost. -/
theorem exchange_at_pointer (hi : cpu.Executes word (.digit .exchangeCG)) (hpt : cpu.pointer < 14) :
    cpu.tick.fault = none ∧
    ChangesOnly [.register .c, .g, .opcode] cpu.afterNop cpu.tick.cpu ∧
    (∀ {cpu' : Processor} {word' : Nat}, SameDigits cpu cpu' →
      cpu'.Executes word' (.digit .gFromC) → cpu'.tick.fault = none ∧
        cpu.tick.cpu.g =
          if cpu.pointer < 13 then cpu'.tick.cpu.g else (cpu'.tick.cpu.g.1, 0)) ∧
    (∀ {cpu' : Processor} {word' : Nat}, SameDigits cpu cpu' →
      cpu'.Executes word' (.digit .cFromG) → cpu'.tick.fault = none ∧
        cpu.tick.cpu.register .c = cpu'.tick.cpu.register .c) ∧
    ∀ {cpu' : Processor} {word' : Nat}, SameDigits cpu.tick.cpu cpu' →
      cpu'.Executes word' (.digit .exchangeCG) → cpu'.tick.fault = none ∧
        cpu'.tick.cpu.register .c = cpu.register .c ∧
        cpu'.tick.cpu.g = if cpu.pointer < 13 then cpu.g else (cpu.g.1, 0) := by
  obtain ⟨hfault, hsame⟩ := hi.exchangeG hpt
  refine ⟨hfault, hi.exchangeG_changesOnly, ?_, ?_, ?_⟩
  · intro cpu' word' hdigits hi'
    obtain ⟨hfault', htaken⟩ := hi'.gFromC (hdigits.pointer ▸ hpt)
    refine ⟨hfault', ?_⟩
    rw [hsame.g, g_exchangeG_eq, htaken, hdigits.pointer, hdigits.gTaken]
  · intro cpu' word' hdigits hi'
    obtain ⟨hfault', hput⟩ := hi'.cFromG (hdigits.pointer ▸ hpt)
    refine ⟨hfault', ?_⟩
    rw [hsame.c, register_exchangeG, hput, hdigits.pointer]
    exact (register_putG_congr hdigits.c hdigits.g hpt).symm
  · intro cpu' word' hdigits hi'
    have htwice : SameDigits (cpu.exchangeG cpu.pointer) cpu' := hsame.trans hdigits
    have hpointer : cpu'.pointer = cpu.pointer :=
      htwice.pointer.trans (cpu.pointer_exchangeG _)
    obtain ⟨hfault', hsame'⟩ := hi'.exchangeG (hpointer ▸ hpt)
    rw [hpointer] at hsame'
    have hboth := (htwice.exchangeG hpt).trans hsame'
    refine ⟨hfault', ?_, ?_⟩
    · rw [hboth.c, register_exchangeG_exchangeG _ hpt]
    · rw [hboth.g, g_exchangeG_exchangeG _ hpt]
      split
      · rfl
      · rfl

/-- A seven goes to g and comes back. -/
theorem exchange_at_pointer_digit :
    let cpu := (List.replicate 2 Act.tick).foldl perform (new .hp12c ⟨#[0x1d0, 0x39c, 0xd8, 0xd8]⟩)
    cpu.register .c = Register.zero.put 0 7 ∧ cpu.tick.cpu.g = (7, 0) ∧
      cpu.tick.cpu.register .c = .zero ∧ cpu.tick.cpu.tick.cpu.register .c = cpu.register .c := by
  intro cpu
  have hi : cpu.Executes 0xd8 (.digit .exchangeCG) := ⟨by decide +kernel, by decide +kernel, rfl⟩
  have hi' : cpu.tick.cpu.Executes 0xd8 (.digit .exchangeCG) :=
    ⟨by decide +kernel, by decide +kernel, by rw [tick_hardware]; rfl⟩
  obtain ⟨-, -, -, -, htwice⟩ := exchange_at_pointer hi (by decide +kernel)
  exact ⟨by decide +kernel, by decide +kernel, by decide +kernel, (htwice (.refl _) hi').2.1⟩

/-- Six instructions leave g with the digits 1 and 5 and the pointer at the top digit, which is
zero.  There a move to g leaves the 5 and an exchange does not. -/
theorem not_exchange_takes :
    ¬∀ {rom rom' : Rom} {cpu cpu' : Processor} {word word' : Nat}, rom.TenBit → rom'.TenBit →
      Reaches (fun _ _ => True) (new .hp12c rom) cpu →
      Reaches (fun _ _ => True) (new .hp12c rom') cpu' → SameDigits cpu cpu' → cpu.pointer < 14 →
      cpu.Executes word (.digit .exchangeCG) → cpu'.Executes word' (.digit .gFromC) →
      cpu.tick.cpu.g = cpu'.tick.cpu.g := by
  intro hall
  let program (last : Nat) : Rom := ⟨#[0x3dc, 0x150, 0x50, 0x3dc, 0x58, 0x3d4, last]⟩
  let reached (last : Nat) := (List.replicate 6 Act.tick).foldl perform (new .hp12c (program last))
  have hreach : ∀ last, Reaches (fun _ _ => True) (new .hp12c (program last)) (reached last) :=
    fun _ => .act .tick (.act .tick (.act .tick (.act .tick (.act .tick (.act .tick .start trivial)
      trivial) trivial) trivial) trivial) trivial
  have hi : (reached 0xd8).Executes 0xd8 (.digit .exchangeCG) :=
    ⟨by decide +kernel, by decide +kernel, by rw [(hreach _).hardware_eq]; rfl⟩
  have hi' : (reached 0x58).Executes 0x58 (.digit .gFromC) :=
    ⟨by decide +kernel, by decide +kernel, by rw [(hreach _).hardware_eq]; rfl⟩
  have hsame : SameDigits (reached 0xd8) (reached 0x58) :=
    ⟨by decide +kernel, by decide +kernel, by decide +kernel⟩
  have htaken := hall (by simp [program, Rom.TenBit]) (by simp [program, Rom.TenBit]) (hreach _)
    (hreach _) hsame (by decide +kernel) hi hi'
  exact absurd htaken (by decide +kernel)

end Processor

end Calculator

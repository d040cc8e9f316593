/-
# How far the pointer goes

All parts but the Nut have one pointer.  It never passes the furthest position to which it can be
set (`inRange_of_reaches`), as long as it does not count up from there on a part that wraps it at the
top digit.  There the wrap is missed: a pointer that was set past the register counts on until it
runs out of its bits (`nextPointer_past`), and every value up to there is reached
(`pointer_strays`).
-/
import Calculator.Proofs.Pointers

namespace Calculator

/-! ## 1. The styles -/

/-- Counting through sixteen values goes with a pointer of sixteen values. -/
theorem Model.furthest_eq {model : Model} (h : model.hardware.family ≠ .nut) :
    model.hardware.furthest = if model.hardware.pointer = .masked then 15 else 14 := by
  cases model <;> first | rfl | exact absurd rfl h

namespace Processor

variable {cpu : Processor}

/-! ## 2. One pointer -/

/-- Outside the Nut the pointer Q is never used. -/
def OnePointer (cpu : Processor) : Prop :=
  cpu.hardware.family ≠ .nut → cpu.active = .p ∧ cpu.q = 0

theorem onePointer_dependsOn : DependsOn OnePointer [.model, .active, .q] := by
  intro cpu cpu' hagree h hother
  have hmodel : cpu'.model = cpu.model := hagree .model (by simp)
  have hactive : cpu'.active = cpu.active := hagree .active (by simp)
  have hq : cpu'.q = cpu.q := hagree .q (by simp)
  rw [hardware, hmodel] at hother
  rw [hactive, hq]
  exact h hother

theorem OnePointer.pointer_eq (h : cpu.OnePointer) (hother : cpu.hardware.family ≠ .nut) :
    cpu.pointer = cpu.p := by
  unfold pointer
  rw [(h hother).1]

theorem OnePointer.setPointer_eq (h : cpu.OnePointer) (hother : cpu.hardware.family ≠ .nut)
    (n : Nat) : cpu.setPointer n = { cpu with p := n } := by
  unfold setPointer
  rw [(h hother).1]

theorem OnePointer.setPointer (h : cpu.OnePointer) (n : Nat) : (cpu.setPointer n).OnePointer := by
  intro hother
  have hmodel : (cpu.setPointer n).model = cpu.model := cpu.changesOnly_setPointer n .model (by simp)
  rw [hardware, hmodel] at hother
  rw [h.setPointer_eq hother]
  exact h hother

theorem OnePointer.incrementPointer (h : cpu.OnePointer) :
    cpu.incrementPointer.cpu.OnePointer := by
  unfold Processor.incrementPointer
  split
  · exact h.setPointer _
  · exact h

theorem OnePointer.decrementPointer (h : cpu.OnePointer) : cpu.decrementPointer.OnePointer := by
  unfold Processor.decrementPointer
  dsimp only
  split
  · exact h.setPointer _
  · exact h.setPointer _

theorem onePointer_invariant (allowed : Processor → Act → Prop) :
    Invariant allowed OnePointer := by
  refine .of_pointers (onePointer_dependsOn.mono (by simp [pointerComponents]))
    (fun _ h => h.setPointer _) (fun _ _ h => h.incrementPointer) (fun h => h.decrementPointer)
    (fun _ hnut _ hother => absurd hnut hother) ?_ ?_
  · intro cpu h hother
    obtain ⟨hactive, hq⟩ := h hother
    exact ⟨(if_neg hother).trans hactive, (if_neg hother).trans hq⟩
  · intro cpu slot v hslot _ h hother
    rw [hardware, Slot.assign_model] at hother
    obtain ⟨k, i, rfl⟩ := Slot.eq_cell_of_mem_layout hother hslot
    exact h hother

theorem onePointer_new (model : Model) (rom : Rom) : (new model rom).OnePointer :=
  (onePointer_invariant fun _ _ => True).reset fun _ => ⟨rfl, rfl⟩

/-! ## 3. The range -/

/-- The one pointer stands no further than it can be set. -/
structure InRange (cpu : Processor) : Prop where
  onePointer : cpu.OnePointer
  le_furthest : cpu.hardware.family ≠ .nut → cpu.p ≤ cpu.hardware.furthest

/-- A pointer that wraps at the top digit does not stand past it. -/
def MayCount (cpu : Processor) : Prop := cpu.hardware.pointer = .previousOpcode → cpu.p ≠ 14

theorem inRange_dependsOn : DependsOn InRange [.model, .active, .p, .q] := by
  intro cpu cpu' hagree h
  have hmodel : cpu'.model = cpu.model := hagree .model (by simp)
  have hp : cpu'.p = cpu.p := hagree .p (by simp)
  refine ⟨onePointer_dependsOn cpu cpu' (fun c hc => hagree c ?_) h.onePointer, ?_⟩
  · simp only [List.mem_cons, List.not_mem_nil, or_false] at hc
    rcases hc with rfl | rfl | rfl <;> simp
  · rw [hardware, hmodel, hp]
    exact h.le_furthest

theorem InRange.frame {cs : List Component} {cpu' : Processor} (h : cpu.InRange)
    (hchange : ChangesOnly cs cpu cpu') (hdisj : ∀ c ∈ [Component.model, .active, .p, .q], c ∉ cs) :
    cpu'.InRange :=
  hchange.preserves inRange_dependsOn hdisj h

theorem InRange.setPointer (h : cpu.InRange) {n : Nat}
    (hn : cpu.hardware.family ≠ .nut → n ≤ cpu.hardware.furthest) : (cpu.setPointer n).InRange := by
  refine ⟨h.onePointer.setPointer n, ?_⟩
  intro hother
  have hmodel : (cpu.setPointer n).model = cpu.model := cpu.changesOnly_setPointer n .model (by simp)
  rw [hardware, hmodel] at hother ⊢
  rw [h.onePointer.setPointer_eq hother]
  exact hn hother

theorem furthest_eq (h : cpu.hardware.family ≠ .nut) :
    cpu.hardware.furthest = if cpu.hardware.pointer = .masked then 15 else 14 :=
  Model.furthest_eq h

/-- Counting up comes out at a position where the pointer can be set. -/
theorem InRange.exists_nextPointer (h : cpu.InRange) (hother : cpu.hardware.family ≠ .nut)
    (hcount : cpu.MayCount) : ∃ n ≤ cpu.hardware.furthest, cpu.nextPointer = .ok n := by
  have hle := h.le_furthest hother
  rw [furthest_eq hother] at hle ⊢
  unfold MayCount at hcount
  unfold nextPointer countUp
  rw [h.onePointer.pointer_eq hother]
  cases hstyle : cpu.hardware.pointer with
  | masked => exact ⟨_, Nat.le_of_lt_succ (Nat.mod_lt _ (by decide)), rfl⟩
  | wrapping =>
    rw [hstyle, if_neg (by decide)] at hle
    dsimp only
    by_cases htop : cpu.p = 14
    · exact ⟨0, by decide, if_pos htop⟩
    · refine ⟨cpu.p + 1, ?_, ?_⟩
      · rw [if_neg (by decide)]
        omega
      · rw [if_neg htop, if_pos (by omega)]
  | previousOpcode =>
    have hne : cpu.p ≠ 14 := hcount hstyle
    rw [hstyle, if_neg (by decide)] at hle
    dsimp only
    rw [if_neg (by decide)]
    by_cases htop : cpu.p = 13
    · exact ⟨0, by decide, if_pos htop⟩
    rw [if_neg htop]
    by_cases hpos : 0 < cpu.p
    · refine ⟨cpu.p + 1, by omega, ?_⟩
      rw [if_pos hpos, if_pos (by omega)]
    rw [if_neg hpos]
    split
    · exact ⟨0, by decide, rfl⟩
    · exact ⟨1, by decide, rfl⟩

theorem InRange.incrementPointer (h : cpu.InRange) (hcount : cpu.MayCount) :
    cpu.incrementPointer.cpu.InRange := by
  unfold Processor.incrementPointer
  split
  · rename_i n hn
    refine h.setPointer ?_
    intro hother
    obtain ⟨m, hm, hnext⟩ := h.exists_nextPointer hother hcount
    cases hnext.symm.trans hn
    exact hm
  · exact h

theorem InRange.decrementPointer (h : cpu.InRange) : cpu.decrementPointer.InRange := by
  unfold Processor.decrementPointer
  dsimp only
  split
  · rename_i hstyle
    refine h.setPointer fun hother => ?_
    rw [furthest_eq hother, if_pos hstyle]
    omega
  · rename_i hstyle
    refine h.setPointer fun hother => ?_
    have hle := h.le_furthest hother
    rw [furthest_eq hother, if_neg hstyle] at hle ⊢
    rw [h.onePointer.pointer_eq hother]
    split <;> omega

end Processor

/-- The act does not count a pointer up that has missed its wrap. -/
def Act.KeepsRange (cpu : Processor) (a : Act) : Prop :=
  a = .tick → ∀ word, cpu.Executes word (.pointer .increment) → cpu.MayCount

namespace Processor

variable {cpu : Processor}

theorem inRange_invariant : Invariant Act.KeepsRange InRange := by
  have hone := onePointer_invariant Act.KeepsRange
  refine .of_pointers inRange_dependsOn (fun hv h => h.setPointer fun _ => hv) ?_
    (fun h => h.decrementPointer) ?_ ?_ ?_
  · intro cpu word ha hi h
    refine h.incrementPointer ?_
    have hp : cpu.ready.p = cpu.p := cpu.changesOnly_ready .p (by simp)
    unfold MayCount
    rw [ready_hardware, hp]
    exact ha rfl word hi
  · exact fun x hnut _ => ⟨fun hother => absurd hnut hother, fun hother => absurd hnut hother⟩
  · exact fun h => ⟨hone.reset h.onePointer, fun _ => Nat.zero_le _⟩
  · intro cpu slot v hslot _ h
    refine ⟨hone.assign v hslot h.onePointer, ?_⟩
    intro hother
    rw [hardware, Slot.assign_model] at hother ⊢
    obtain ⟨k, i, rfl⟩ := Slot.eq_cell_of_mem_layout hother hslot
    exact h.le_furthest hother

theorem inRange_new (model : Model) (rom : Rom) : (new model rom).InRange :=
  ⟨onePointer_new model rom, fun _ => Nat.zero_le _⟩

/-- **The pointer stays where it can be set**, as long as none is counted up that has missed its
wrap. -/
theorem inRange_of_reaches {model : Model} {rom : Rom} (hrom : rom.TenBit)
    (h : Reaches Act.KeepsRange (new model rom) cpu) : cpu.InRange :=
  inRange_invariant.of_reaches hrom (inRange_new model rom) h

/-- On a part that does not wrap at the top digit, no wrap can be missed. -/
theorem keepsRange_of_reaches {model : Model} {rom : Rom}
    (hstyle : model.hardware.pointer ≠ .previousOpcode)
    (h : Reaches (fun _ _ => True) (new model rom) cpu) :
    Reaches Act.KeepsRange (new model rom) cpu := by
  refine h.mono ?_
  intro cpu' a hcpu _ _ word _ hprevious
  rw [hardware, hcpu.model_rom.1] at hprevious
  exact absurd hprevious hstyle

/-! ## 4. A pointer that missed its wrap -/

/-- Past the top digit there is no way round any more. -/
theorem nextPointer_past (hstyle : cpu.hardware.pointer = .previousOpcode) (h : 13 < cpu.pointer) :
    cpu.nextPointer = cpu.countUp cpu.pointer := by
  unfold nextPointer
  rw [hstyle]
  dsimp only
  rw [if_neg (by omega), if_pos (by omega)]

/-- A tick that counts such a pointer up. -/
theorem tick_past {word : Nat} (hi : cpu.Executes word (.pointer .increment))
    (hstyle : cpu.hardware.pointer = .previousOpcode) (hactive : cpu.active = .p)
    (hpast : 13 < cpu.p) (hlt : cpu.p < 0xff) :
    cpu.tick.cpu = { cpu.ready with p := cpu.p + 1, opcode := word } := by
  have hp : cpu.ready.p = cpu.p := cpu.changesOnly_ready .p (by simp)
  have hready : cpu.ready.active = .p := Eq.trans (cpu.changesOnly_ready .active (by simp)) hactive
  have hpointer : cpu.ready.pointer = cpu.p := by
    unfold pointer
    rw [hready]
    exact hp
  have hnext : cpu.ready.nextPointer = .ok (cpu.p + 1) := by
    rw [nextPointer_past (by rwa [ready_hardware]) (by rwa [hpointer]), hpointer]
    exact if_pos hlt
  rw [hi.tick_eq.1]
  simp only [Processor.run, runPointer, Processor.incrementPointer, hnext, Processor.setPointer,
    hready, Outcome.done]

/-- An image that sets the pointer past the register and counts it up ever after. -/
def countingImage : Rom := Rom.put ⟨Array.replicate 0x1000 0o720⟩ 0 0o74

theorem tenBit_countingImage : countingImage.TenBit := Rom.TenBit.put_replicate (by decide) 0o74

theorem word?_countingImage_zero : countingImage.word? 0 = some 0o74 :=
  Rom.word?_put_replicate_zero 0o74 0o720

theorem word?_countingImage {a : Address} (h : 0 < a) (hlt : a < 0x1000) :
    countingImage.word? a = some 0o720 :=
  Rom.word?_put_replicate 0o74 0o720 h hlt

/-- Past its first word the image has a processor count the pointer up. -/
theorem executes_countingImage (h : Reaches (fun _ _ => True) (new .hp31e countingImage) cpu)
    (hrunning : cpu.isRunning = true) (hpos : 0 < cpu.pc) (hlt : cpu.pc < 0x1000) :
    cpu.hardware = Model.hardware .hp31e ∧ cpu.Executes 0o720 (.pointer .increment) := by
  obtain ⟨hmodel, hrom⟩ := h.model_rom
  have hhardware : cpu.hardware = Model.hardware .hp31e := congrArg Model.hardware hmodel
  refine ⟨hhardware, hrunning, ?_, ?_⟩
  · rw [hrom]
    exact word?_countingImage hpos hlt
  · rw [hhardware]
    rfl

/-- The pointer of a part that wraps it at the top digit reaches every value of its eight bits. -/
theorem pointer_strays (k : Nat) (h : k ≤ 241) :
    ∃ cpu, Reaches (fun _ _ => True) (new .hp31e countingImage) cpu ∧ cpu.isRunning = true ∧
      cpu.active = .p ∧ cpu.pc = k + 1 ∧ cpu.p = k + 14 := by
  induction k with
  | zero =>
    have hrunning : (new .hp31e countingImage).isRunning = true := rfl
    have hcpu := (tick_of_word? hrunning word?_countingImage_zero).1
    refine ⟨_, .act .tick .start trivial, ?_⟩
    simp only [perform, hcpu]
    exact ⟨rfl, rfl, rfl, rfl⟩
  | succ k ih =>
    obtain ⟨cpu, hreach, hrunning, hactive, hpc, hp⟩ := ih (by omega)
    have hlt : k + 1 < 0xfff := by omega
    obtain ⟨hhardware, hi⟩ := executes_countingImage hreach hrunning (hpc ▸ Nat.succ_pos k)
      (hpc ▸ Nat.lt_succ_of_lt hlt)
    have hcpu := tick_past hi (by rw [hhardware]; rfl) hactive (by omega) (by omega)
    refine ⟨_, .act .tick hreach trivial, ?_⟩
    simp only [perform, hcpu]
    refine ⟨?_, ?_, ?_, ?_⟩
    · exact Eq.trans cpu.ready_isRunning hrunning
    · exact Eq.trans (cpu.changesOnly_ready .active (by simp)) hactive
    · rw [ready_pc, hpc, hhardware]
      have hnext : (k + 1) / 0x1000 * 0x1000 + (k + 1 + 1) % 0x1000 = k + 1 + 1 := by omega
      exact (if_neg (Nat.not_le.mpr hlt)).trans hnext
    · rw [hp]

/-! ## 5. Woodstock parts -/

theorem furthest_of_woodstock {model : Model} (h : model.hardware.family = .woodstock) :
    model.hardware.furthest = 14 := by
  simp only [Hardware.furthest, h]

/-- **The pointer of a Woodstock stays at most one past the register, and counting up brings it back
there.**  On a part that counts through fifteen values it does so whatever happens; on one that wraps
at the top digit, as long as it is not counted up from past it, which makes it go on instead. -/
theorem woodstock_pointer_le {model : Model} {rom : Rom}
    (hwoodstock : model.hardware.family = .woodstock) (hrom : rom.TenBit) :
    (model.hardware.pointer = .wrapping →
      ∀ cpu, Reaches (fun _ _ => True) (new model rom) cpu →
        cpu.p ≤ 14 ∧ ∃ n ≤ 14, cpu.nextPointer = .ok n) ∧
    (model.hardware.pointer = .previousOpcode →
      ∀ cpu, Reaches Act.KeepsRange (new model rom) cpu →
        cpu.p ≤ 14 ∧ (cpu.p ≠ 14 → ∃ n ≤ 14, cpu.nextPointer = .ok n) ∧
          (cpu.p = 14 → cpu.nextPointer = .ok 15)) := by
  have hbound : ∀ cpu, Reaches Act.KeepsRange (new model rom) cpu →
      cpu.hardware = model.hardware ∧ cpu.hardware.family ≠ .nut ∧ cpu.p ≤ 14 ∧
        (cpu.MayCount → ∃ n ≤ 14, cpu.nextPointer = .ok n) := by
    intro cpu h
    have hhardware : cpu.hardware = model.hardware := congrArg Model.hardware h.model_rom.1
    have hother : cpu.hardware.family ≠ .nut := by
      rw [hhardware, hwoodstock]
      decide
    have hin := inRange_of_reaches hrom h
    have hle := hin.le_furthest hother
    have hnext := hin.exists_nextPointer hother
    rw [hhardware, furthest_of_woodstock hwoodstock] at hle hnext
    exact ⟨hhardware, hother, hle, hnext⟩
  constructor
  · intro hstyle cpu h
    obtain ⟨hhardware, -, hle, hnext⟩ := hbound cpu (keepsRange_of_reaches (by simp [hstyle]) h)
    refine ⟨hle, hnext fun hprevious => ?_⟩
    rw [hhardware, hstyle] at hprevious
    cases hprevious
  · intro hstyle cpu h
    obtain ⟨hhardware, hother, hle, hnext⟩ := hbound cpu h
    refine ⟨hle, fun hne => hnext fun _ => hne, fun htop => ?_⟩
    have hpointer := (inRange_of_reaches hrom h).onePointer.pointer_eq hother
    have hprevious : cpu.hardware.pointer = .previousOpcode := by rw [hhardware, hstyle]
    rw [nextPointer_past hprevious (by omega), hpointer, htop]
    rfl

/-- A part of either style, its pointer set one past the register. -/
theorem woodstock_pointer_le_top :
    (let cpu := (new .hp25 ⟨#[0o74, 0o720]⟩).perform .tick;
      cpu.p = 14 ∧ ∃ n ≤ 14, cpu.nextPointer = .ok n) ∧
    (let cpu := (new .hp31e ⟨#[0o74, 0o720]⟩).perform .tick;
      cpu.p = 14 ∧ cpu.nextPointer = .ok 15) := by
  have hrom : Rom.TenBit ⟨#[0o74, 0o720]⟩ := by simp [Rom.TenBit]
  constructor
  · exact ⟨rfl, ((woodstock_pointer_le rfl hrom).1 rfl _ (.act .tick .start trivial)).2⟩
  · refine ⟨rfl, ((woodstock_pointer_le rfl hrom).2 rfl _ (.act .tick .start ?_)).2.2 rfl⟩
    intro _ word _ _ hp
    cases hp

/-- On a part that wraps at the top digit the pointer does pass the position after it. -/
theorem not_woodstock_pointer_le :
    ¬∀ (model : Model) (rom : Rom) (cpu : Processor), model.hardware.family = .woodstock →
      rom.TenBit → Reaches (fun _ _ => True) (new model rom) cpu → cpu.p ≤ 14 := by
  intro hle
  obtain ⟨cpu, hreach, -, -, -, hp⟩ := pointer_strays 1 (by decide)
  have hcpu := hle .hp31e _ cpu rfl tenBit_countingImage hreach
  omega

end Processor

end Calculator

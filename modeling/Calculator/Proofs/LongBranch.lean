/-
# Long branches

A Nut branches to any address with an instruction of two words.  The first holds the low half of the
address, the second the high half and the condition: whether the branch wants the carry clear or set,
and whether it is a call.  `BranchesFar` says what a tick does with the two, case by case, and
`long_branch_decodes` that it does so for every address and condition, in every history.

The processor advances twice in such a tick, so the carry that decides has to survive the second time
(`ready_passed`).  An address beyond the image is refused to a call alone.
-/
import Calculator.Proofs.CarryAgeing
import Calculator.Proofs.ReturnAddresses
import Calculator.Proofs.WellFormed

namespace Calculator

/-! ## 1. The two words -/

namespace Address

/-- The first word of a long branch. -/
def lowWord (a : Address) : Nat := a % 0x100 * 4 + 1

/-- The second word of a long branch under condition `k`. -/
def highWord (a : Address) (k : Nat) : Nat := a / 0x100 * 4 + k

variable {a : Address} {k : Nat}

theorem decode_lowWord {hw : Hardware} (hnut : hw.family = .nut) (a : Address) :
    Instruction.decode hw a.lowWord = .ok (.flow (.longBranch (a % 0x100))) := by
  have hform : WordForm.ofWord a.lowWord = .subroutine a.lowWord := by
    have hlow : a.lowWord % 4 = 1 := by
      unfold lowWord
      omega
    simp only [WordForm.ofWord, hlow]
  have hhalf : a.lowWord / 4 = a % 0x100 := by
    unfold lowWord
    omega
  simp only [Instruction.decode, hform, hnut, hhalf]

/-- The halves that stand in the two words make up the address. -/
theorem or_highWord (ha : a < 0x10000) (hk : k < 4) :
    a % 0x100 ||| a.highWord k / 4 % 0x100 * 0x100 = a := by
  have hhigh : a.highWord k / 4 % 0x100 = a / 0x100 := by
    unfold highWord
    unfold Address at *
    omega
  have hor := Nat.two_pow_add_eq_or_of_lt (Nat.mod_lt a (by decide : 0 < 2 ^ 8)) (a / 0x100)
  rw [hhigh, Nat.or_comm, Nat.mul_comm]
  exact hor.symm.trans (Nat.div_add_mod a 0x100)

theorem highWord_mod_four (hk : k < 4) : a.highWord k % 4 = k := by
  unfold highWord
  omega

theorem highWord_mod_two : a.highWord k % 2 = k % 2 := by
  unfold highWord
  omega

end Address

namespace Processor

variable {cpu : Processor} {a : Address} {k : Nat}

/-! ## 2. The branch -/

/-- The carry meets the condition of a long branch. -/
def TakesFar (cpu : Processor) (k : Nat) : Prop :=
  (k = 0 ∨ k = 2) ∧ cpu.flags.carry = false ∨ (k = 1 ∨ k = 3) ∧ cpu.flags.carry = true

instance (cpu : Processor) (k : Nat) : Decidable (cpu.TakesFar k) := inferInstanceAs (Decidable (_ ∨ _))

/-- The address after both words of a long branch. -/
def pastFar (cpu : Processor) : Address := cpu.hardware.next (cpu.hardware.next cpu.pc)

theorem takesFar_iff (hk : k < 4) : cpu.TakesFar k ↔ cpu.flags.carry = (k % 2 == 1) := by
  obtain rfl | rfl | rfl | rfl : k = 0 ∨ k = 1 ∨ k = 2 ∨ k = 3 := by omega
  all_goals simp [TakesFar]

/-- What a tick does with a long branch to `a` under condition `k`. -/
structure BranchesFar (cpu : Processor) (a : Address) (k : Nat) : Prop where
  fault : cpu.tick.fault = none
  passed : ¬cpu.TakesFar k → cpu.tick.cpu.pc = cpu.pastFar ∧ cpu.tick.cpu.stack = cpu.stack
  gone : cpu.TakesFar k → 2 ≤ k → cpu.tick.cpu.pc = a ∧ cpu.tick.cpu.stack = cpu.stack
  called : cpu.TakesFar k → k < 2 → a < cpu.hardware.romSize →
    cpu.tick.cpu.pc = a ∧ cpu.tick.cpu.stack = cpu.stack.push cpu.pastFar
  /-- A return that follows comes back to what stands after the branch. -/
  returned : cpu.TakesFar k → k < 2 → a < cpu.hardware.romSize →
    cpu.tick.cpu.ret.pc = cpu.pastFar ∧
      ∀ word, cpu.tick.cpu.Executes word (.flow .return) → cpu.tick.cpu.tick.cpu.pc = cpu.pastFar
  /-- A subroutine beyond the image is not entered. -/
  refused : cpu.TakesFar k → k < 2 → cpu.hardware.romSize ≤ a →
    cpu.tick.cpu.pc = cpu.pastFar ∧ cpu.tick.cpu.stack = cpu.stack
  warnings : cpu.tick.warnings =
    if cpu.TakesFar k ∧ k < 2 ∧ cpu.hardware.romSize ≤ a then [.invalidAddress cpu.pc a] else []
  prevCarry : cpu.tick.cpu.flags.prevCarry = cpu.flags.carry
  carry : cpu.tick.cpu.flags.carry = false
  frame : ChangesOnly (.stack :: tickFootprint) cpu cpu.tick.cpu

/-- The processor past both words, with the carry that it has found kept as the carry before. -/
def passedFar (cpu : Processor) : Processor := { cpu.ready with pc := cpu.pastFar }

theorem passedFar_prevCarry (cpu : Processor) : cpu.passedFar.flags.prevCarry = cpu.flags.carry :=
  cpu.ready_prevCarry

theorem changesOnly_passedFar (cpu : Processor) : ChangesOnly tickFootprint cpu cpu.passedFar :=
  (cpu.changesOnly_ready.mono (by simp [tickFootprint])).trans
    ((cpu.ready.changesOnly_pc _).mono (by simp [tickFootprint]))

theorem advance_eq_passedFar (cpu : Processor) :
    (cpu.ready.setCarry cpu.ready.flags.prevCarry).advance = cpu.passedFar := by
  rw [ready_passed, ready_pc]
  rfl

/-- Where a long branch leads whose second word is there. -/
theorem ready_longBranch (ha : a < 0x10000) (hk : k < 4)
    (hsecond : cpu.rom.word? (cpu.hardware.next cpu.pc) = some (a.highWord k)) :
    cpu.ready.run (.flow (.longBranch (a % 0x100))) =
      if cpu.TakesFar k then
        if k < 2 then
          if a < cpu.hardware.romSize then .done (cpu.passedFar.call a)
          else .warn cpu.passedFar (.invalidAddress cpu.pc a)
        else .done { cpu.passedFar with pc := a }
      else .done cpu.passedFar := by
  have hfetch : cpu.ready.fetch cpu.ready.pc = .ok (a.highWord k) := by
    unfold fetch
    rw [ready_pc, ready_rom, hsecond]
  have hhardware : cpu.passedFar.hardware = cpu.hardware := cpu.ready_hardware
  have hlast : cpu.passedFar.last = cpu.pc := cpu.ready_last
  simp only [run, runFlow, longBranch, hfetch, advance_eq_passedFar, hhardware, hlast,
    passedFar_prevCarry, Address.or_highWord ha hk, Address.highWord_mod_four hk,
    Address.highWord_mod_two, takesFar_iff hk, bne_iff_ne, ne_eq, ite_not]

/-- A Nut calls a subroutine at a full address. -/
theorem call_of_nut (hnut : cpu.hardware.family = .nut) (a : Address) :
    cpu.call a = { cpu with stack := cpu.stack.push cpu.pc, pc := a } := by
  unfold call
  dsimp only
  split
  · rfl
  · contradiction

theorem changesOnly_call_of_nut (hnut : cpu.hardware.family = .nut) (a : Address) :
    ChangesOnly [.stack, .pc] cpu (cpu.call a) := by
  rw [call_of_nut hnut]
  intro c hc
  cases c with
  | stack | pc => exact absurd (by simp) hc
  | _ => rfl

theorem ready_longBranch_changesOnly (hnut : cpu.hardware.family = .nut) (ha : a < 0x10000)
    (hk : k < 4) (hsecond : cpu.rom.word? (cpu.hardware.next cpu.pc) = some (a.highWord k)) :
    ChangesOnly [.stack, .pc] cpu.ready (cpu.ready.run (.flow (.longBranch (a % 0x100)))).cpu := by
  have hpassed : ChangesOnly [.stack, .pc] cpu.ready cpu.passedFar :=
    (cpu.ready.changesOnly_pc _).mono (by simp)
  have hfamily : cpu.passedFar.hardware.family = .nut := cpu.ready_hardware ▸ hnut
  rw [ready_longBranch ha hk hsecond]
  split
  · split
    · split
      · exact hpassed.trans (changesOnly_call_of_nut hfamily a)
      · exact hpassed
    · exact hpassed.trans ((changesOnly_pc _ _).mono (by simp))
  · exact hpassed

/-- Only a call beyond the image is warned of. -/
theorem ready_longBranch_warnings (ha : a < 0x10000) (hk : k < 4)
    (hsecond : cpu.rom.word? (cpu.hardware.next cpu.pc) = some (a.highWord k)) :
    (cpu.ready.run (.flow (.longBranch (a % 0x100)))).warnings =
      if cpu.TakesFar k ∧ k < 2 ∧ cpu.hardware.romSize ≤ a then [.invalidAddress cpu.pc a] else [] := by
  rw [ready_longBranch ha hk hsecond]
  by_cases htakes : cpu.TakesFar k
  · by_cases hcalls : k < 2
    · by_cases hinside : a < cpu.hardware.romSize
      · simp [htakes, hcalls, hinside]
      · simp [htakes, hcalls, hinside]
    · simp [htakes, hcalls]
  · simp [htakes]

/-- A tick that returns goes to the top of the stack. -/
theorem Executes.return_pc {word : Nat} (hi : cpu.Executes word (.flow .return))
    (hfamily : cpu.hardware.family ≠ .classic) : cpu.tick.cpu.pc = cpu.stack.top := by
  have hstack : cpu.ready.stack = cpu.stack := cpu.changesOnly_ready .stack (by simp)
  rw [hi.tick_eq.1, ← hstack]
  exact cpu.ready.yields_top.ret (by rwa [ready_hardware])

/-- A tick with both words there branches as they say. -/
theorem Executes.branchesFar (hi : cpu.Executes a.lowWord (.flow (.longBranch (a % 0x100))))
    (hnut : cpu.hardware.family = .nut) (hfit : cpu.StackFit) (ha : a < 0x10000) (hk : k < 4)
    (hsecond : cpu.rom.word? (cpu.hardware.next cpu.pc) = some (a.highWord k)) :
    cpu.BranchesFar a k := by
  have hrun := ready_longBranch ha hk hsecond
  have hstack : cpu.passedFar.stack = cpu.stack :=
    cpu.changesOnly_passedFar .stack (by simp [tickFootprint])
  have hfamily : cpu.passedFar.hardware.family = .nut := cpu.ready_hardware ▸ hnut
  have hcalled : cpu.TakesFar k → k < 2 → a < cpu.hardware.romSize →
      cpu.tick.cpu.pc = a ∧ cpu.tick.cpu.stack = cpu.stack.push cpu.pastFar := by
    intro htakes hcalls hinside
    rw [hi.tick_eq.1, hrun, if_pos htakes, if_pos hcalls, if_pos hinside,
      call_of_nut hfamily, hstack]
    exact ⟨rfl, rfl⟩
  have hframe : ChangesOnly (.stack :: tickFootprint) cpu cpu.tick.cpu :=
    (hi.tick_changesOnly (ready_longBranch_changesOnly hnut ha hk hsecond)).mono
      (by simp [tickFootprint])
  refine ⟨?_, ?_, ?_, hcalled, ?_, ?_, ?_, ?_, ?_, hframe⟩
  · rw [hi.tick_eq.2, hrun]
    repeat' split
    all_goals rfl
  · intro hpasses
    rw [hi.tick_eq.1, hrun, if_neg hpasses]
    exact ⟨rfl, hstack⟩
  · intro htakes hgoes
    rw [hi.tick_eq.1, hrun, if_pos htakes, if_neg (Nat.not_lt.mpr hgoes)]
    exact ⟨rfl, hstack⟩
  · intro htakes hcalls hinside
    have htop : cpu.tick.cpu.stack.top = cpu.pastFar := by
      rw [(hcalled htakes hcalls hinside).2, ReturnStack.top_push _ _ hfit]
    have hafter : cpu.tick.cpu.hardware.family ≠ .classic := by
      have hmodel : cpu.tick.cpu.model = cpu.model := hframe .model (by simp [tickFootprint])
      rw [hardware, hmodel, ← hardware, hnut]
      decide
    refine ⟨?_, fun word hreturn => ?_⟩
    · rw [← htop]
      exact cpu.tick.cpu.yields_top.ret hafter
    · rw [← htop]
      exact hreturn.return_pc hafter
  · intro htakes hcalls houtside
    rw [hi.tick_eq.1, hrun, if_pos htakes, if_pos hcalls, if_neg (Nat.not_lt.mpr houtside)]
    exact ⟨rfl, hstack⟩
  · exact hi.warnings_eq.trans (ready_longBranch_warnings ha hk hsecond)
  · rw [hi.tick_eq.1]
    exact (cpu.ready.longBranch_carries _).1.trans cpu.ready_prevCarry
  · rw [hi.tick_eq.1]
    exact (cpu.ready.longBranch_carries _).2 cpu.ready_carry

/-! ## 3. Every address and condition -/

/-- **A long branch leads where its two words say**, for every address and condition, wherever in the
image it stands and whatever came before: it is taken if the carry that the tick has found meets the
condition, a call leaves the address after both words on the stack, and that carry is kept as the carry
before.  Without a second word the tick fails, and neither the stack nor a register has changed. -/
theorem long_branch_decodes {model : Model} {rom : Rom} (hnut : model.hardware.family = .nut)
    (h : Reaches (fun _ _ => True) (new model rom) cpu) (hrunning : cpu.isRunning = true)
    (ha : a < 0x10000) (hk : k < 4) (hfirst : rom.word? cpu.pc = some a.lowWord) :
    (rom.word? (model.hardware.next cpu.pc) = some (a.highWord k) → cpu.BranchesFar a k) ∧
    (rom.word? (model.hardware.next cpu.pc) = none →
      cpu.tick.fault = some (.outsideRom (model.hardware.next cpu.pc)) ∧
        ChangesOnly tickFootprint cpu cpu.tick.cpu) := by
  obtain ⟨hmodel, hrom⟩ := h.model_rom
  have hhardware : cpu.hardware = model.hardware := congrArg Model.hardware hmodel
  rw [← hhardware] at hnut ⊢
  rw [← show cpu.rom = rom from hrom] at hfirst ⊢
  have hi : cpu.Executes a.lowWord (.flow (.longBranch (a % 0x100))) :=
    ⟨hrunning, hfirst, Address.decode_lowWord hnut a⟩
  refine ⟨hi.branchesFar hnut (stackFit_of_reaches h) ha hk, fun hnone => ?_⟩
  have hrun : cpu.ready.run (.flow (.longBranch (a % 0x100))) =
      .fail cpu.ready (.outsideRom (cpu.hardware.next cpu.pc)) := by
    simp only [run, runFlow, longBranch, fetch, ready_rom, ready_pc, hnone]
  refine ⟨by rw [hi.tick_eq.2, hrun]; rfl, ?_⟩
  have hstay : ChangesOnly [] cpu.ready (cpu.ready.run (.flow (.longBranch (a % 0x100)))).cpu := by
    rw [hrun]
    exact .refl _ _
  exact hi.tick_changesOnly hstay

/-- An image of one long branch, which calls a subroutine on a carry. -/
def farCallImage : Rom := ⟨#[Address.lowWord 0xfff, Address.highWord 0xfff 1]⟩

/-- A Nut is powered on with the carry set, so its first tick may call a subroutine on a carry. -/
theorem long_branch_decodes_call :
    let cpu := new .hp12c farCallImage
    cpu.isRunning = true ∧ cpu.BranchesFar 0xfff 1 ∧
      cpu.tick.cpu.pc = 0xfff ∧ cpu.tick.cpu.stack = cpu.stack.push 2 := by
  have hstart : Reaches (fun _ _ => True) (new .hp12c farCallImage) (new .hp12c farCallImage) := .start
  have hbranch : (new .hp12c farCallImage).BranchesFar 0xfff 1 :=
    (long_branch_decodes rfl hstart rfl (by decide) (by decide) rfl).1 rfl
  exact ⟨rfl, hbranch, hbranch.called (by decide) (by decide) (by decide)⟩

end Processor

end Calculator

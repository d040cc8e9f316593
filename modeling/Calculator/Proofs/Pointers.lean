/-
# The pointers of a Nut

Few instructions move a pointer, and `Invariant.of_pointers` says which.  A Nut keeps both its
pointers within the register (`pointersFit_of_reaches`): its counting wraps at the top digit, its
operands never name a position past it, and a saved pointer that does is pulled back when it is
restored.
-/
import Calculator.Proofs.Invariant

namespace Calculator

/-- Every Nut counts its pointers round the register. -/
theorem Model.pointer_of_nut {model : Model} (h : model.hardware.family = .nut) :
    model.hardware.pointer = .previousOpcode := by
  cases model <;> first | rfl | cases h

namespace Processor

/-! ## 1. What moves a pointer -/

/-- The components that say where the pointers stand, and which of them is used. -/
def pointerComponents : List Component := [.model, .active, .p, .q]

/-- **A property of the pointers has six ways to be lost.**  They can be set, counted up, counted
down or selected, a reset takes them back to zero, and a record may hold other ones. -/
theorem Invariant.of_pointers {allowed : Processor → Act → Prop} {P : Processor → Prop}
    (hP : DependsOn P pointerComponents)
    (hset : ∀ {cpu v}, v ≤ cpu.hardware.furthest → P cpu → P (cpu.setPointer v))
    (hincrement : ∀ {cpu word}, allowed cpu .tick → cpu.Executes word (.pointer .increment) →
      P cpu.ready → P cpu.ready.incrementPointer.cpu)
    (hdecrement : ∀ {cpu}, P cpu → P cpu.decrementPointer)
    (hselect : ∀ {cpu} x, cpu.hardware.family = .nut → P cpu → P { cpu with active := x })
    (hreset : ∀ {cpu}, P cpu → P cpu.reset)
    (hassign : ∀ {cpu slot} v, slot ∈ (Slot.layout cpu.hardware).flatten →
      slot.component ∈ pointerComponents → P cpu → P (slot.assign cpu v)) :
    Invariant allowed P := by
  refine .of_dependsOn hP (by simp [pointerComponents]) (by simp [pointerComponents]) ?_ ?_ hreset
    hassign
  · intro cpu word i ha hi hfits htouch h
    cases i with
    | digit x =>
      cases x with
      | loadConstant digit =>
        have hput : ∀ pt, P (cpu.ready.putFrom .c pt [digit]) :=
          fun pt => (changesOnly_putFrom _ .c pt [digit]).preserves hP (by simp [pointerComponents]) h
        simp only [Processor.run, runDigit, loadConstant]
        split
        · exact hdecrement (hput _)
        · exact hdecrement (hput _)
      | _ => simp [pointerComponents] at htouch
    | pointer x =>
      cases x with
      | set value => exact hset hfits h
      | increment => exact hincrement ha hi h
      | decrement => exact hdecrement h
      | select pointer => exact hselect pointer hfits h
      | _ => simp [pointerComponents] at htouch
    | nop => simp at htouch
    | arithmetic x _ | move x | status x | flow x | data x | control x | card x | printer x =>
      cases x <;> simp [pointerComponents, RegisterName.all] at htouch
  · intro cpu a _ htouch h
    cases a with
    | arithmetic op s => cases op <;> simp [pointerComponents, Act.footprint] at htouch
    | _ => simp [pointerComponents, Act.footprint] at htouch

/-! ## 2. The invariant -/

/-- On a Nut both pointers stand at a digit of the register. -/
def PointersFit (cpu : Processor) : Prop :=
  cpu.hardware.family = .nut → cpu.p < 14 ∧ cpu.q < 14

variable {cpu : Processor}

theorem pointersFit_dependsOn : DependsOn PointersFit [.model, .p, .q] := by
  intro cpu cpu' hagree h hnut
  have hmodel : cpu'.model = cpu.model := hagree .model (by simp)
  have hp : cpu'.p = cpu.p := hagree .p (by simp)
  have hq : cpu'.q = cpu.q := hagree .q (by simp)
  rw [hardware, hmodel] at hnut
  rw [hp, hq]
  exact h hnut

theorem PointersFit.frame {cs : List Component} {cpu' : Processor} (h : cpu.PointersFit)
    (hchange : ChangesOnly cs cpu cpu') (hdisj : ∀ c ∈ [Component.model, .p, .q], c ∉ cs) :
    cpu'.PointersFit :=
  hchange.preserves pointersFit_dependsOn hdisj h

/-! ## 3. Moving the pointers -/

theorem PointersFit.pointer_lt (h : cpu.PointersFit) (hnut : cpu.hardware.family = .nut) :
    cpu.pointer < 14 := by
  unfold pointer
  split
  · exact (h hnut).1
  · exact (h hnut).2

theorem PointersFit.setPointer (h : cpu.PointersFit) {n : Nat}
    (hn : cpu.hardware.family = .nut → n < 14) : (cpu.setPointer n).PointersFit := by
  unfold Processor.setPointer
  split
  · exact fun hnut => ⟨hn hnut, (h hnut).2⟩
  · exact fun hnut => ⟨(h hnut).1, hn hnut⟩

/-- From the top digit a pointer counts on to zero. -/
theorem PointersFit.nextPointer_lt (h : cpu.PointersFit) (hnut : cpu.hardware.family = .nut)
    {n : Nat} (hn : cpu.nextPointer = .ok n) : n < 14 := by
  have hstyle : cpu.hardware.pointer = .previousOpcode := Model.pointer_of_nut hnut
  have hlt := h.pointer_lt hnut
  unfold nextPointer at hn
  simp only [hstyle] at hn
  split at hn
  · cases hn
    decide
  · split at hn
    · unfold countUp at hn
      split at hn
      · cases hn
        omega
      · cases hn
    · split at hn <;> cases hn <;> decide

theorem PointersFit.incrementPointer (h : cpu.PointersFit) :
    cpu.incrementPointer.cpu.PointersFit := by
  unfold Processor.incrementPointer
  split
  · exact h.setPointer fun hnut => h.nextPointer_lt hnut ‹_›
  · exact h

/-- Below zero comes the top digit. -/
theorem PointersFit.decrementPointer (h : cpu.PointersFit) : cpu.decrementPointer.PointersFit := by
  by_cases hnut : cpu.hardware.family = .nut
  · have hstyle : cpu.hardware.pointer = .previousOpcode := Model.pointer_of_nut hnut
    have hlt := h.pointer_lt hnut
    unfold Processor.decrementPointer
    simp only [hstyle]
    refine h.setPointer ?_
    intro _
    split <;> omega
  · have hmodel : cpu.decrementPointer.model = cpu.model :=
      cpu.changesOnly_decrementPointer .model (by simp)
    intro hnut'
    rw [hardware, hmodel] at hnut'
    exact absurd hnut' hnut

/-! ## 4. Every history -/

/-- A restored pointer is pulled back into the register. -/
theorem pointerValue_lt (v : Nat) : Slot.pointerValue v < 14 := by
  unfold Slot.pointerValue
  split
  · assumption
  · decide

/-- A record may hold any number for a pointer. -/
theorem PointersFit.assign (h : cpu.PointersFit) (slot : Slot) (v : Nat) :
    (slot.assign cpu v).PointersFit := by
  have hframe := slot.assign_changesOnly cpu v
  cases slot with
  | p => exact fun hnut => ⟨pointerValue_lt v, (h hnut).2⟩
  | q => exact fun hnut => ⟨(h hnut).1, pointerValue_lt v⟩
  | flag x => exact h.frame hframe (by cases x <;> decide)
  | _ => exact h.frame hframe (by simp [Slot.component])

theorem pointersFit_reset (cpu : Processor) : cpu.reset.PointersFit := by
  intro hnut
  have hq : cpu.reset.q = 0 := if_pos hnut
  rw [hq]
  exact ⟨(by decide : 0 < 14), by decide⟩

/-- No operand of a Nut names a position past the register. -/
theorem pointersFit_invariant (allowed : Processor → Act → Prop) :
    Invariant allowed PointersFit := by
  refine .of_pointers (pointersFit_dependsOn.mono (by simp [pointerComponents])) ?_
    (fun _ _ h => h.incrementPointer) (fun h => h.decrementPointer) (fun _ _ h => h)
    (fun _ => pointersFit_reset _) (fun v _ _ h => h.assign _ v)
  intro cpu v hv h
  refine h.setPointer fun hnut => Nat.lt_succ_of_le ?_
  simpa only [Hardware.furthest, hnut] using hv

/-- **The pointers of a Nut never leave the register**, whatever happens to the processor. -/
theorem pointersFit_of_reaches {model : Model} {rom : Rom} {allowed : Processor → Act → Prop}
    (hrom : rom.TenBit) (h : Reaches allowed (new model rom) cpu) : cpu.PointersFit :=
  (pointersFit_invariant allowed).of_reaches hrom (pointersFit_reset _) h

end Processor

end Calculator

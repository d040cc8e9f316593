/-
# Invariants

A property of the processor holds all the time if it holds at power on and survives each stage of a
tick and each act of the host.  `Invariant` lists what there is to be shown, one field for each way
in which the processor can change, and `Invariant.of_reaches` draws the conclusion.  A property that
reads few components has little to show: what changes elsewhere is settled by its frame.
-/
import Calculator.Proofs.History

namespace Calculator

namespace Processor

/-- The property survives every stage of a tick and every act, as far as acts are allowed.  The
instructions of a tick come from ten bit words, the slots of a record from the layout of the
model. -/
structure Invariant (allowed : Processor → Act → Prop) (P : Processor → Prop) : Prop where
  latchInputs : ∀ {cpu}, P cpu → P cpu.latchInputs
  fetched : ∀ {cpu}, P cpu → P cpu.fetched
  run : ∀ {cpu word i}, allowed cpu .tick → cpu.Executes word i → i.Fits cpu.ready.hardware →
    cpu.ready.rom.TenBit → P cpu.ready → P (cpu.ready.run i).cpu
  opcode : ∀ {cpu} word, P cpu → P { cpu with opcode := word }
  small : ∀ {cpu} a, a.isSmall = true → P cpu → P (cpu.perform a)
  reset : ∀ {cpu}, P cpu → P cpu.reset
  assign : ∀ {cpu slot} v, slot ∈ (Slot.layout cpu.hardware).flatten → P cpu →
    P (slot.assign cpu v)

namespace Invariant

variable {allowed : Processor → Act → Prop} {P : Processor → Prop} {cpu : Processor}

theorem tick (hP : Invariant allowed P) (hrom : cpu.rom.TenBit) (ha : allowed cpu .tick)
    (h : P cpu) : P cpu.tick.cpu := by
  refine tick_preserves h hP.latchInputs hP.fetched ?_ fun _ word h => hP.opcode word h
  intro word i hi hready
  refine hP.run ha hi ?_ ?_ hready
  · rw [ready_hardware]
    exact hi.fits hrom
  · rw [ready_rom]
    exact hrom

/-- Restoring a record keeps to the layout that it began with. -/
theorem read (hP : Invariant allowed P) (h : P cpu) (bytes : List UInt8) :
    P (Record.read cpu bytes).cpu := by
  have hboth : (Record.read cpu bytes).cpu.model = cpu.model ∧ P (Record.read cpu bytes).cpu := by
    refine Record.readSlots_preserves (motive := fun cpu' => cpu'.model = cpu.model ∧ P cpu') ?_
      ⟨rfl, h⟩ bytes
    rintro slot hslot cpu' v ⟨hmodel, h'⟩
    refine ⟨(slot.assign_model cpu' v).trans hmodel, hP.assign v ?_ h'⟩
    rw [hardware, hmodel]
    exact hslot
  exact hboth.2

theorem perform (hP : Invariant allowed P) (hrom : cpu.rom.TenBit) {a : Act} (ha : allowed cpu a)
    (h : P cpu) : P (cpu.perform a) := by
  cases a with
  | tick => exact hP.tick hrom ha h
  | reset => exact hP.reset h
  | restore bytes => exact hP.read h bytes
  | _ => exact hP.small _ rfl h

/-- **An invariant that holds at power on holds all the time.** -/
theorem of_reaches (hP : Invariant allowed P) {model : Model} {rom : Rom} (hrom : rom.TenBit)
    (hnew : P (new model rom)) (h : Reaches allowed (new model rom) cpu) : P cpu := by
  refine h.invariant hnew fun cpu a hcpu ha ih => hP.perform ?_ ha ih
  rw [hcpu.model_rom.2]
  exact hrom

/-! ## Invariants that read few components -/

/-- The property is left to be shown only where one of the components is touched that it depends on.
None of them may be one that every tick changes. -/
theorem of_dependsOn {cs : List Component} (hP : DependsOn P cs)
    (hfree : ∀ c ∈ cs, c ∉ [Component.pc, .last, .carry, .prevCarry, .opcode])
    (hlatch : ∀ {cpu}, (∃ c ∈ cs, c ∈ [Component.status, .modeFlag, .keyFlag]) → P cpu →
      P cpu.latchInputs)
    (hrun : ∀ {cpu word i}, allowed cpu .tick → cpu.Executes word i → i.Fits cpu.ready.hardware →
      (∃ c ∈ cs, c ∈ i.footprint) → P cpu.ready → P (cpu.ready.run i).cpu)
    (hsmall : ∀ {cpu} a, a.isSmall = true → (∃ c ∈ cs, c ∈ a.footprint) → P cpu →
      P (cpu.perform a))
    (hreset : ∀ {cpu}, P cpu → P cpu.reset)
    (hassign : ∀ {cpu slot} v, slot ∈ (Slot.layout cpu.hardware).flatten → slot.component ∈ cs →
      P cpu → P (slot.assign cpu v)) : Invariant allowed P := by
  have hframe : ∀ {ds cpu cpu'}, ChangesOnly ds cpu cpu' → (¬∃ c ∈ cs, c ∈ ds) → P cpu → P cpu' :=
    fun hchange hno h => hchange.preserves hP (fun c hc hd => hno ⟨c, hc, hd⟩) h
  refine ⟨?_, ?_, ?_, ?_, ?_, hreset, ?_⟩
  · intro cpu h
    by_cases htouch : ∃ c ∈ cs, c ∈ [Component.status, .modeFlag, .keyFlag]
    · exact hlatch htouch h
    · exact hframe cpu.changesOnly_latchInputs htouch h
  · intro cpu h
    refine hframe cpu.changesOnly_fetched ?_ h
    rintro ⟨c, hc, hd⟩
    exact hfree c hc (List.mem_append_left [Component.opcode] hd)
  · intro cpu word i ha hi hfits _ h
    by_cases htouch : ∃ c ∈ cs, c ∈ i.footprint
    · exact hrun ha hi hfits htouch h
    · exact hframe (run_changesOnly _ i) htouch h
  · intro cpu word h
    refine hframe (cpu.changesOnly_opcode word) ?_ h
    rintro ⟨c, hc, hd⟩
    exact hfree c hc (List.mem_append_right [Component.pc, .last, .carry, .prevCarry] hd)
  · intro cpu a ha h
    by_cases htouch : ∃ c ∈ cs, c ∈ a.footprint
    · exact hsmall a ha htouch h
    · exact hframe (cpu.perform_changesOnly ha) htouch h
  · intro cpu slot v hslot h
    by_cases htouch : slot.component ∈ cs
    · exact hassign v hslot htouch h
    · refine hframe (slot.assign_changesOnly cpu v) ?_ h
      rintro ⟨c, hc, hd⟩
      exact htouch (List.mem_singleton.mp hd ▸ hc)

end Invariant

end Processor

end Calculator

/-
# Histories

A processor lives between its program and its host: ticks and the acts of the host follow one
another in any order.  `Processor.perform` carries out one act, and `Reaches` is a history of acts
of which each was allowed when it was due.  `Reaches.invariant` is the induction over histories; the
other statements tell what single acts leave alone.
-/
import Calculator.Emulator
import Calculator.Proofs.Tick

namespace Calculator

open Processor (ChangesOnly changesOnly_call changesOnly_ret)

/-! ## 1. Restoring a record -/

/-- The component of a flag. -/
def Flag.component : Flag → Component
  | carry => .carry
  | prevCarry => .prevCarry
  | delayedRom => .delayedRom
  | displayEnable => .displayEnable
  | bankSwitch => .bankSwitch
  | mode => .modeFlag

/-- The component that a slot is a part of. -/
def Slot.component : Slot → Component
  | flag x => x.component
  | status _ => .status
  | digit r _ => .register r
  | p => .p
  | q => .q
  | f => .f
  | gLow | gHigh => .g
  | cell _ _ => .memory

theorem Slot.assign_changesOnly (cpu : Processor) (slot : Slot) (v : Nat) :
    ChangesOnly [slot.component] cpu (slot.assign cpu v) := by
  cases slot with
  | digit r i => exact cpu.changesOnly_setRegister r _
  | flag x =>
    intro c hc
    cases x <;> cases c <;> first | rfl | exact absurd (List.mem_singleton_self _) hc
  | status bit => exact cpu.changesOnly_status _
  | p =>
    refine .of_ne ?_
    intro c hc
    cases c with
    | p => exact absurd rfl hc
    | _ => rfl
  | q =>
    refine .of_ne ?_
    intro c hc
    cases c with
    | q => exact absurd rfl hc
    | _ => rfl
  | f => exact cpu.changesOnly_f _
  | gLow | gHigh => exact cpu.changesOnly_g _
  | cell k i => exact cpu.changesOnly_memory _

@[simp] theorem Slot.assign_model (cpu : Processor) (slot : Slot) (v : Nat) :
    (slot.assign cpu v).model = cpu.model := by
  cases slot <;> rfl

/-- Parts of a processor that no record holds. -/
def Component.unsaved : List Component :=
  [.model, .rom, .stack, .pc, .last, .dataAddress, .romNumber, .card, .printer]

theorem Slot.component_not_mem {cs : List Component} (h : ∀ c ∈ cs, c ∈ Component.unsaved)
    (slot : Slot) : slot.component ∉ cs := by
  intro hmem
  have hunsaved := h _ hmem
  cases slot with
  | flag x => cases x <;> simp [component, Flag.component, Component.unsaved] at hunsaved
  | _ => simp [component, Component.unsaved] at hunsaved

/-- What every assignment preserves, a whole record preserves. -/
theorem Record.readSlots_preserves {motive : Processor → Prop} {slots : List Slot}
    (hassign : ∀ slot ∈ slots, ∀ cpu v, motive cpu → motive (slot.assign cpu v)) {cpu : Processor}
    (h : motive cpu) (bytes : List UInt8) : motive (readSlots cpu bytes slots).cpu := by
  induction slots generalizing cpu bytes with
  | nil => exact h
  | cons slot slots ih =>
    unfold readSlots
    split
    · exact h
    · refine ih (fun s hs => hassign s (List.mem_cons_of_mem _ hs)) ?_ _
      exact hassign slot List.mem_cons_self cpu _ h

theorem Record.readSlots_changesOnly (cpu : Processor) (bytes : List UInt8) (slots : List Slot) :
    ChangesOnly (slots.map Slot.component) cpu (readSlots cpu bytes slots).cpu := by
  refine readSlots_preserves (fun slot hslot cpu' v h => h.trans ?_) (.refl _ cpu) bytes
  refine (slot.assign_changesOnly cpu' v).mono ?_
  intro c hc
  rw [List.mem_singleton.mp hc]
  exact List.mem_map_of_mem hslot

theorem Record.read_changesOnly (cpu : Processor) (bytes : List UInt8) :
    ChangesOnly ((Slot.layout cpu.hardware).flatten.map Slot.component) cpu (read cpu bytes).cpu :=
  readSlots_changesOnly cpu bytes _

/-- What no record holds, restoring leaves alone. -/
theorem Record.read_agrees (cpu : Processor) (bytes : List UInt8) {c : Component}
    (hc : c ∈ Component.unsaved) : c.Agrees cpu (read cpu bytes).cpu := by
  refine read_changesOnly cpu bytes c ?_
  intro hmem
  obtain ⟨slot, -, hslot⟩ := List.mem_map.mp hmem
  refine Slot.component_not_mem ?_ slot (List.mem_singleton.mpr hslot)
  intro c' hc'
  rw [List.mem_singleton.mp hc']
  exact hc

/-- All but a Nut save their data registers alone. -/
theorem Slot.eq_cell_of_mem_layout {hw : Hardware} {slot : Slot} (h : hw.family ≠ .nut)
    (hslot : slot ∈ (layout hw).flatten) : ∃ k i, slot = .cell k i := by
  obtain ⟨line, hline, hmem⟩ := List.mem_flatten.mp hslot
  unfold layout at hline
  rw [if_neg h, List.nil_append] at hline
  split at hline
  · obtain ⟨k, -, rfl⟩ := List.mem_map.mp hline
    obtain ⟨i, -, rfl⟩ := List.mem_map.mp hmem
    exact ⟨k, i, rfl⟩
  · cases hline

theorem Record.read_changesOnly_memory {cpu : Processor} (h : cpu.hardware.family ≠ .nut)
    (bytes : List UInt8) : ChangesOnly [.memory] cpu (read cpu bytes).cpu := by
  refine (read_changesOnly cpu bytes).mono ?_
  intro c hc
  obtain ⟨slot, hslot, rfl⟩ := List.mem_map.mp hc
  obtain ⟨k, i, rfl⟩ := Slot.eq_cell_of_mem_layout h hslot
  exact List.mem_singleton_self _

/-! ## 2. Acts -/

/-- What can happen to a processor between one moment and the next. -/
inductive Act where
  | tick
  /-- An arithmetic operation on a span that the host chooses. -/
  | arithmetic (op : ArithmeticOp) (s : Span)
  | press (code : UInt8)
  | release
  | wake
  | reset
  | setProgram (on : Bool)
  | setTimer (on : Bool)
  | setTrace (on : Bool)
  | setPrintMode (mode : PrintMode)
  | takePrinted
  | call (target : UInt16)
  | ret
  | restore (bytes : List UInt8)

/-- The processor after an act.  A tick that fails leaves the processor as the fault left it. -/
def Processor.perform (cpu : Processor) : Act → Processor
  | .tick => cpu.tick.cpu
  | .arithmetic op s => cpu.applyArithmetic op s
  | .press code => cpu.press code.toNat
  | .release => cpu.release
  | .wake => cpu.wake
  | .reset => cpu.reset
  | .setProgram on => cpu.setProgram on
  | .setTimer on => cpu.setTimer on
  | .setTrace on => cpu.setTrace on
  | .setPrintMode mode => cpu.setPrintMode mode
  | .takePrinted => cpu.takePrinted.2
  | .call target => cpu.call target.toNat
  | .ret => cpu.ret
  | .restore bytes => (Record.read cpu bytes).cpu

/-- What the smaller acts of the host change.  Ticks, resets and restores reach too far to be
listed. -/
def Act.footprint : Act → List Component
  | tick | reset | restore _ => []
  | arithmetic op _ => op.footprint
  | press _ => [.keyCode, .keyPressed, .enabled, .sleeping]
  | release => [.keyPressed]
  | wake => [.enabled, .sleeping]
  | setProgram _ | setTimer _ | setTrace _ => [.switches]
  | setPrintMode _ | takePrinted => [.printer]
  | call _ => [.pc, .stack, .delayedRom]
  | ret => [.pc, .stack]

/-- Whether the footprint of an act is known. -/
def Act.isSmall : Act → Bool
  | tick | reset | restore _ => false
  | _ => true

namespace Processor

theorem perform_changesOnly (cpu : Processor) {a : Act} (ha : a.isSmall = true) :
    ChangesOnly a.footprint cpu (cpu.perform a) := by
  cases a with
  | tick | reset | restore bytes => cases ha
  | arithmetic op s => exact cpu.applyArithmetic_changesOnly op s
  | press code =>
    simp only [perform, press]
    intro c hc
    cases c with
    | keyCode | keyPressed | enabled | sleeping => exact absurd (by simp [Act.footprint]) hc
    | _ => split <;> rfl
  | takePrinted =>
    simp only [perform, takePrinted]
    split
    · exact cpu.changesOnly_printer _
    · exact .refl _ cpu
  | call target => exact cpu.changesOnly_call target.toNat
  | ret => exact cpu.changesOnly_ret
  | release =>
    refine .of_ne ?_
    intro c hc
    cases c with
    | keyPressed => exact absurd rfl hc
    | _ => rfl
  | wake =>
    intro c hc
    cases c with
    | enabled | sleeping => exact absurd (by simp [Act.footprint]) hc
    | _ => rfl
  | setProgram _ | setTimer _ | setTrace _ =>
    refine .of_ne ?_
    intro c hc
    cases c with
    | switches => exact absurd rfl hc
    | _ => rfl
  | setPrintMode mode => exact cpu.changesOnly_printer _

/-! ## 3. What no act changes -/

/-- The components that only the host changes, if anything does. -/
def hostOwned : List Component := [.model, .rom, .keyPressed, .switches]

theorem not_mem_footprint {c : Component} (hc : c ∈ hostOwned) (i : Instruction) :
    c ∉ i.footprint := by
  simp only [hostOwned, List.mem_cons, List.not_mem_nil, or_false] at hc
  rcases hc with rfl | rfl | rfl | rfl <;> cases i with
  | nop => simp
  | arithmetic op field => cases op <;> simp
  | move x => cases x <;> simp
  | digit x => cases x <;> simp
  | status x => cases x <;> simp
  | pointer x => cases x <;> simp
  | flow x => cases x <;> simp
  | data x => cases x <;> simp
  | control x => cases x <;> simp
  | card x => cases x <;> simp
  | printer x => cases x <;> simp

/-- A tick leaves alone what the host owns. -/
theorem tick_agrees (cpu : Processor) {c : Component} (hc : c ∈ hostOwned) :
    c.Agrees cpu cpu.tick.cpu := by
  have hcases : c = .model ∨ c = .rom ∨ c = .keyPressed ∨ c = .switches := by
    simpa [hostOwned] using hc
  refine tick_preserves (motive := fun cpu' => c.Agrees cpu cpu') ?_ ?_ ?_ ?_ ?_
  · exact ChangesOnly.refl [] cpu c (by simp)
  · refine fun h => h.trans (cpu.changesOnly_latchInputs c ?_)
    rcases hcases with rfl | rfl | rfl | rfl <;> simp
  · refine fun h => h.trans (changesOnly_fetched _ c ?_)
    rcases hcases with rfl | rfl | rfl | rfl <;> simp
  · exact fun word i _ h => h.trans (run_changesOnly _ i c (not_mem_footprint hc i))
  · intro cpu' word h
    rcases hcases with rfl | rfl | rfl | rfl <;> exact h

theorem tick_model (cpu : Processor) : cpu.tick.cpu.model = cpu.model :=
  cpu.tick_agrees (by simp [hostOwned] : Component.model ∈ hostOwned)

theorem tick_hardware (cpu : Processor) : cpu.tick.cpu.hardware = cpu.hardware :=
  congrArg Model.hardware cpu.tick_model

/-- The model and the image stay what they are. -/
theorem perform_agrees (cpu : Processor) (a : Act) {c : Component} (hc : c = .model ∨ c = .rom) :
    c.Agrees cpu (cpu.perform a) := by
  cases a with
  | tick => exact cpu.tick_agrees (by rcases hc with rfl | rfl <;> simp [hostOwned])
  | reset => rcases hc with rfl | rfl <;> rfl
  | restore bytes =>
    exact Record.read_agrees cpu bytes (by rcases hc with rfl | rfl <;> simp [Component.unsaved])
  | arithmetic op s =>
    refine cpu.applyArithmetic_changesOnly op s c ?_
    rcases hc with rfl | rfl <;> cases op <;> simp
  | press _ | release | wake | setProgram _ | setTimer _ | setTrace _ | setPrintMode _
  | takePrinted | call _ | ret =>
    refine cpu.perform_changesOnly rfl c ?_
    rcases hc with rfl | rfl <;> simp [Act.footprint]

end Processor

/-! ## 4. Histories -/

/-- The processors that a history of allowed acts leads to. -/
inductive Reaches (allowed : Processor → Act → Prop) (start : Processor) : Processor → Prop where
  | start : Reaches allowed start start
  | act {cpu : Processor} (a : Act) (h : Reaches allowed start cpu) (ha : allowed cpu a) :
      Reaches allowed start (cpu.perform a)

namespace Reaches

variable {allowed : Processor → Act → Prop} {start cpu : Processor}

/-- **What holds at the start and survives every allowed act holds all the time.** -/
theorem invariant {motive : Processor → Prop} (hstart : motive start)
    (hact : ∀ cpu a, Reaches allowed start cpu → allowed cpu a → motive cpu →
      motive (cpu.perform a))
    (h : Reaches allowed start cpu) : motive cpu := by
  induction h with
  | start => exact hstart
  | act a h ha ih => exact hact _ a h ha ih

/-- A history whose acts are allowed under another rule too is a history under that rule. -/
theorem mono {allowed' : Processor → Act → Prop} (h : Reaches allowed start cpu)
    (himp : ∀ cpu a, Reaches allowed start cpu → allowed cpu a → allowed' cpu a) :
    Reaches allowed' start cpu :=
  h.invariant .start fun cpu a hcpu ha ih => ih.act a (himp cpu a hcpu ha)

/-- Every history is one in which anything may happen. -/
theorem any (h : Reaches allowed start cpu) : Reaches (fun _ _ => True) start cpu :=
  h.mono fun _ _ _ _ => trivial

theorem trans {last : Processor} (h : Reaches allowed start cpu) (h' : Reaches allowed cpu last) :
    Reaches allowed start last :=
  h'.invariant h fun _ a _ ha ih => ih.act a ha

theorem model_rom (h : Reaches allowed start cpu) :
    cpu.model = start.model ∧ cpu.rom = start.rom := by
  refine h.invariant (motive := fun cpu => cpu.model = start.model ∧ cpu.rom = start.rom)
    ⟨rfl, rfl⟩ fun cpu a _ _ ih => ?_
  constructor
  · exact Eq.trans (cpu.perform_agrees a (.inl rfl)) ih.1
  · exact Eq.trans (cpu.perform_agrees a (.inr rfl)) ih.2

theorem hardware_eq (h : Reaches allowed start cpu) : cpu.hardware = start.hardware :=
  congrArg Model.hardware h.model_rom.1

end Reaches

end Calculator

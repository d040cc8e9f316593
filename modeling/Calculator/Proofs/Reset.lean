/-
# Reset

A reset takes a processor back to where a new one starts, whatever has happened to it.  It does not
write every part of the processor: some it keeps on purpose (`Kept`), and some it need not write, for
nothing ever changes them.  The data registers and the peripherals stay as they were built in
(`SameParts`), the pointer Q belongs to a Nut and the delayed select to the others (`AsBuilt`).
`reset_forgets` is the main statement.
-/
import Calculator.Proofs.WellFormed

namespace Calculator

namespace Processor

variable {cpu cpu' : Processor}

/-! ## 1. Parts -/

/-- The two processors have the same parts: model, data registers and peripherals. -/
structure SameParts (cpu cpu' : Processor) : Prop where
  model : cpu'.model = cpu.model
  memory_size : cpu'.memory.size = cpu.memory.size
  printer_isSome : cpu'.printer.isSome = cpu.printer.isSome
  card_isSome : cpu'.card.isSome = cpu.card.isSome

theorem SameParts.refl (cpu : Processor) : SameParts cpu cpu := ⟨rfl, rfl, rfl, rfl⟩

theorem SameParts.trans {cpu'' : Processor} (h : SameParts cpu cpu') (h' : SameParts cpu' cpu'') :
    SameParts cpu cpu'' :=
  ⟨h'.model.trans h.model, h'.memory_size.trans h.memory_size,
    h'.printer_isSome.trans h.printer_isSome, h'.card_isSome.trans h.card_isSome⟩

/-- A change of other components leaves the parts alone. -/
theorem ChangesOnly.sameParts {cs : List Component} (h : ChangesOnly cs cpu cpu')
    (hdisj : ∀ c ∈ [Component.model, .memory, .printer, .card], c ∉ cs) : SameParts cpu cpu' where
  model := h .model (hdisj _ (by simp))
  memory_size := congrArg Array.size (h .memory (hdisj _ (by simp)))
  printer_isSome := congrArg Option.isSome (h .printer (hdisj _ (by simp)))
  card_isSome := congrArg Option.isSome (h .card (hdisj _ (by simp)))

theorem sameParts_store (cpu : Processor) : SameParts cpu cpu.store.cpu := by
  unfold store
  split
  · exact ⟨rfl, Array.size_setIfInBounds, rfl, rfl⟩
  · exact .refl cpu

theorem sameParts_clearBlock (cpu : Processor) : SameParts cpu cpu.clearBlock :=
  ⟨rfl, Array.size_mapIdx, rfl, rfl⟩

theorem sameParts_clearData (cpu : Processor) : SameParts cpu cpu.clearData := by
  unfold clearData
  split
  · exact .refl cpu
  next reader _ hcard =>
    have hreader : ∀ x, SameParts cpu { cpu with card := some x } :=
      fun x => ⟨rfl, rfl, rfl, by rw [hcard]; rfl⟩
    dsimp only
    split
    · exact (hreader _).trans (sameParts_clearBlock _)
    · exact hreader _
  · exact cpu.sameParts_clearBlock

theorem sameParts_runCard (cpu : Processor) (op : CardOp) : SameParts cpu (cpu.runCard op) := by
  unfold runCard
  split
  next reader hcard =>
    cases op with
    | eject | set _ | take _ => exact ⟨rfl, rfl, rfl, by rw [hcard]; rfl⟩
    | testCard | testRun | idle => exact ⟨rfl, rfl, rfl, rfl⟩
  · exact .refl cpu

theorem sameParts_runPrinter (cpu : Processor) (op : PrinterOp) :
    SameParts cpu (cpu.runPrinter op).cpu := by
  unfold runPrinter
  split
  next printer hprinter =>
    have hput : ∀ x, SameParts cpu { cpu with printer := some x } :=
      fun x => ⟨rfl, rfl, by rw [hprinter]; rfl, rfl⟩
    cases op with
    | printLine => exact (hput printer.flush).trans ⟨rfl, rfl, rfl, rfl⟩
    | printLineAndPoll =>
      simp only [runPrinterWith, Outcome.done]
      split
      · exact (hput printer.flush).trans ⟨rfl, rfl, rfl, rfl⟩
      · exact hput _
    | numeric | alpha =>
      simp only [runPrinterWith, takePrinter]
      split <;> exact hput _
  · exact .refl cpu

/-- No instruction builds a part in or takes one out. -/
theorem sameParts_run (cpu : Processor) (i : Instruction) : SameParts cpu (cpu.run i).cpu := by
  have hframe := (cpu.run_changesOnly i).sameParts
  cases i with
  | data x =>
    cases x with
    | store => exact cpu.sameParts_store
    | storeAt n =>
      exact ((cpu.changesOnly_selectInBlock n).sameParts (by simp)).trans (sameParts_store _)
    | clear => exact cpu.sameParts_clearData
    | selectFromC | load | loadAt n => exact hframe (by simp)
  | card x => exact cpu.sameParts_runCard x
  | printer x => exact cpu.sameParts_runPrinter x
  | nop => exact hframe (by simp)
  | arithmetic x _ | move x | digit x | status x | pointer x | flow x | control x =>
    exact hframe (by cases x <;> simp [RegisterName.all])

theorem sameParts_tick (cpu : Processor) : SameParts cpu cpu.tick.cpu := by
  refine tick_preserves (motive := SameParts cpu) (.refl cpu) ?_ ?_ ?_ ?_
  · exact fun h => h.trans (cpu.changesOnly_latchInputs.sameParts (by simp))
  · exact fun h => h.trans (cpu.latchInputs.changesOnly_fetched.sameParts (by simp))
  · exact fun _ i _ h => h.trans (cpu.ready.sameParts_run i)
  · exact fun cpu' word h => h.trans ((cpu'.changesOnly_opcode word).sameParts (by simp))

/-- Neither does the host. -/
theorem sameParts_perform (cpu : Processor) (a : Act) : SameParts cpu (cpu.perform a) := by
  cases a with
  | tick => exact cpu.sameParts_tick
  | reset => exact ⟨rfl, Array.size_map, by simp [perform, reset], by simp [perform, reset]⟩
  | restore bytes =>
    have hread : ∀ c ∈ Component.unsaved, c.Agrees cpu (Record.read cpu bytes).cpu :=
      fun c hc => Record.read_agrees cpu bytes hc
    exact ⟨hread .model (by simp [Component.unsaved]), Record.size_read cpu bytes,
      congrArg Option.isSome (hread .printer (by simp [Component.unsaved])),
      congrArg Option.isSome (hread .card (by simp [Component.unsaved]))⟩
  | setPrintMode mode => exact ⟨rfl, rfl, by simp [perform, setPrintMode], rfl⟩
  | takePrinted =>
    simp only [perform, takePrinted]
    split
    · exact ⟨rfl, rfl, by simp [*], rfl⟩
    · exact .refl cpu
  | arithmetic op s =>
    exact (cpu.perform_changesOnly rfl).sameParts (by cases op <;> simp [Act.footprint])
  | press _ | release | wake | setProgram _ | setTimer _ | setTrace _ | call _ | ret =>
    exact (cpu.perform_changesOnly rfl).sameParts (by simp [Act.footprint])

/-! ## 2. What only one family uses -/

/-- The pointer Q belongs to a Nut, and the delayed select to the others. -/
structure AsBuilt (cpu : Processor) : Prop where
  onePointer : cpu.OnePointer
  selectFit : cpu.SelectFit

theorem asBuilt_dependsOn : DependsOn AsBuilt [.model, .active, .q, .romNumber] :=
  fun cpu cpu' hagree h =>
    ⟨onePointer_dependsOn.mono (by simp) cpu cpu' hagree h.onePointer,
      selectFit_dependsOn.mono (by simp) cpu cpu' hagree h.selectFit⟩

/-- Instructions that the family has keep to this, whatever their operands. -/
theorem AsBuilt.run (h : cpu.AsBuilt) {i : Instruction} (hi : i.Suits cpu.hardware) :
    (cpu.run i).cpu.AsBuilt := by
  have hchange := cpu.run_changesOnly i
  have hframe := fun hdisj => hchange.preserves asBuilt_dependsOn hdisj h
  have hmoved := fun hdisj (hone : (cpu.run i).cpu.OnePointer) =>
    AsBuilt.mk hone (hchange.preserves selectFit_dependsOn hdisj h.selectFit)
  cases i with
  | digit x =>
    cases x with
    | loadConstant digit =>
      refine hmoved (by simp) ?_
      have hput : ∀ pt, (cpu.putFrom .c pt [digit]).OnePointer := fun pt =>
        (cpu.changesOnly_putFrom .c pt [digit]).preserves onePointer_dependsOn (by simp) h.onePointer
      simp only [Processor.run, runDigit, loadConstant]
      split
      · exact (hput _).decrementPointer
      · exact (hput _).decrementPointer
    | _ => exact hframe (by simp)
  | pointer x =>
    cases x with
    | set value => exact hmoved (by simp) (h.onePointer.setPointer value)
    | increment => exact hmoved (by simp) h.onePointer.incrementPointer
    | decrement => exact hmoved (by simp) h.onePointer.decrementPointer
    | select pointer => exact hmoved (by simp) fun hother => absurd hi hother
    | branchIf _ _ | test _ | testPair => exact hframe (by simp)
  | flow x =>
    cases x with
    | delayedSelectRom number => exact ⟨h.onePointer, fun hnut => absurd hnut hi⟩
    | _ => exact hframe (by simp)
  | nop => exact hframe (by simp)
  | arithmetic x _ | move x | status x | data x | control x | card x | printer x =>
    exact hframe (by cases x <;> simp [RegisterName.all])

theorem AsBuilt.perform (h : cpu.AsBuilt) (a : Act) : (cpu.perform a).AsBuilt := by
  have hone := onePointer_invariant fun _ _ => True
  have hselect := selectFit_invariant fun _ _ => True
  cases a with
  | tick =>
    refine tick_preserves h ?_ ?_ ?_ ?_
    · exact fun h => ⟨hone.latchInputs h.onePointer, hselect.latchInputs h.selectFit⟩
    · exact fun h => ⟨hone.fetched h.onePointer, hselect.fetched h.selectFit⟩
    · exact fun _ _ hi h => h.run (cpu.ready_hardware ▸ Instruction.suits_of_decode hi.decode_eq)
    · exact fun _ _ h => ⟨hone.opcode _ h.onePointer, hselect.opcode _ h.selectFit⟩
  | reset => exact ⟨hone.reset h.onePointer, hselect.reset h.selectFit⟩
  | restore bytes => exact ⟨hone.read h.onePointer bytes, hselect.read h.selectFit bytes⟩
  | _ => exact ⟨hone.small _ rfl h.onePointer, hselect.small _ rfl h.selectFit⟩

/-- **A processor stays as it was built**, with an image of words of any width. -/
theorem built_of_reaches {model : Model} {rom : Rom} {allowed : Processor → Act → Prop}
    (h : Reaches allowed (new model rom) cpu) : SameParts (new model rom) cpu ∧ cpu.AsBuilt := by
  refine h.invariant (motive := fun cpu => SameParts (new model rom) cpu ∧ cpu.AsBuilt) ?_ ?_
  · exact ⟨.refl _, onePointer_new model rom, selectFit_new model rom⟩
  · exact fun cpu a _ _ ih => ⟨ih.1.trans (cpu.sameParts_perform a), ih.2.perform a⟩

/-! ## 3. What is kept -/

/-- What a reset keeps. -/
structure Kept where
  m : Register
  n : Register
  switches : Switches
  /-- The print mode and the printed lines, where there is a printer. -/
  printing : Option (PrintMode × Array String)
  deriving DecidableEq

/-- What a reset keeps of the processor. -/
def kept (cpu : Processor) : Kept where
  m := cpu.register .m
  n := cpu.register .n
  switches := cpu.switches
  printing := cpu.printer.map fun printer => (printer.mode, printer.printed)

/-- The processor with what another one has kept. -/
def keeping (cpu : Processor) (k : Kept) : Processor :=
  { cpu with
    registers := { cpu.registers with m := k.m, n := k.n }
    switches := k.switches
    printer :=
      match cpu.printer, k.printing with
      | some printer, some (mode, printed) =>
        some { printer with mode := mode, printed := printed }
      | printer, _ => printer }

theorem kept_reset (cpu : Processor) : cpu.reset.kept = cpu.kept := by
  unfold kept reset
  cases cpu.printer <;> rfl

/-- The parts that a reset does not write are as they were at power on. -/
theorem AsBuilt.reset_eq (h : cpu.AsBuilt) :
    cpu.reset.q = 0 ∧ cpu.reset.active = .p ∧ cpu.reset.romNumber = 0 := by
  by_cases hnut : cpu.hardware.family = .nut
  · exact ⟨if_pos hnut, if_pos hnut, (if_pos hnut).trans (h.selectFit hnut)⟩
  · obtain ⟨hactive, hq⟩ := h.onePointer hnut
    exact ⟨(if_neg hnut).trans hq, (if_neg hnut).trans hactive, if_neg hnut⟩

theorem new_printer (model : Model) (rom : Rom) :
    (new model rom).printer =
      if model.hardware.peripheral = .printer then some .new else none :=
  Option.map_if

theorem new_card (model : Model) (rom : Rom) :
    (new model rom).card =
      if model.hardware.peripheral = .cardReader then
        some (.poweredOn model.hardware.continuous)
      else none :=
  Option.map_if

section Parts

variable {model : Model} {rom : Rom} (h : SameParts (new model rom) cpu)
include h

/-- The data registers are cleared, however many there are. -/
theorem SameParts.reset_memory : cpu.reset.memory = (new model rom).memory := by
  have hmemory : ∀ cpu : Processor, cpu.reset.memory = Array.replicate cpu.memory.size .zero :=
    fun _ => Array.map_const'
  rw [hmemory, h.memory_size]
  simp [new, reset]

/-- Of a printer the reset keeps the mode and what was printed. -/
theorem SameParts.reset_printer :
    cpu.reset.printer = ((new model rom).keeping cpu.kept).printer := by
  have hsome := h.printer_isSome
  simp only [keeping, kept, reset]
  rw [new_printer] at hsome ⊢
  cases hprinter : cpu.printer with
  | none => simp_all
  | some printer =>
    rw [hprinter] at hsome
    split at hsome
    · rw [if_pos ‹_›]
      rfl
    · cases hsome

theorem SameParts.reset_card : cpu.reset.card = (new model rom).card := by
  have hmodel : cpu.model = model := h.model
  have hsome := h.card_isSome
  simp only [reset, hardware, hmodel]
  rw [new_card] at hsome ⊢
  cases hcard : cpu.card with
  | none => simp_all
  | some reader =>
    rw [hcard] at hsome
    split at hsome
    · rw [if_pos ‹_›]
      rfl
    · cases hsome

/-- A reset brings back a new processor with the same parts. -/
theorem SameParts.reset_eq (hrom : cpu.rom = rom) (hbuilt : cpu.AsBuilt) :
    cpu.reset = (new model rom).keeping cpu.kept := by
  obtain rfl : cpu.model = model := h.model
  subst hrom
  obtain ⟨hq, hactive, hnumber⟩ := hbuilt.reset_eq
  refine eq_of_agrees fun c => ?_
  cases c with
  | q => exact hq.trans (ite_self 0).symm
  | active => exact hactive.trans (ite_self Pointer.p).symm
  | romNumber => exact hnumber.trans (ite_self 0).symm
  | register r => cases r <;> rfl
  | memory => exact h.reset_memory
  | printer => exact h.reset_printer
  | card => exact h.reset_card
  | _ => rfl

/-- Only the HP-10 has a printer. -/
theorem SameParts.printer_isSome_iff : cpu.printer.isSome = true ↔ model = .hp10 := by
  rw [h.printer_isSome, new_printer]
  cases model <;> decide

end Parts

/-! ## 4. Every history -/

/-- **A reset forgets the history.**  It brings back a new processor of the same model with the same
image, in which it leaves what it keeps, and the HP-10 alone has something printed to keep.  So two
histories lead to the same processor after a reset exactly if they agree on that. -/
theorem reset_forgets {model : Model} {rom : Rom} {allowed : Processor → Act → Prop}
    (h : Reaches allowed (new model rom) cpu) :
    cpu.reset = (new model rom).keeping cpu.kept ∧
    cpu.reset.kept = cpu.kept ∧
    (cpu.kept.printing.isSome = true ↔ model = .hp10) ∧
    ∀ {allowed' : Processor → Act → Prop} {cpu' : Processor},
      Reaches allowed' (new model rom) cpu' → (cpu'.reset = cpu.reset ↔ cpu'.kept = cpu.kept) := by
  obtain ⟨hparts, hbuilt⟩ := built_of_reaches h
  have hreset := hparts.reset_eq h.model_rom.2 hbuilt
  refine ⟨hreset, cpu.kept_reset, ?_, ?_⟩
  · rw [kept, Option.isSome_map]
    exact hparts.printer_isSome_iff
  · intro allowed' cpu' h'
    obtain ⟨hparts', hbuilt'⟩ := built_of_reaches h'
    constructor
    · intro heq
      rw [← kept_reset, heq, kept_reset]
    · intro hkept
      rw [hparts'.reset_eq h'.model_rom.2 hbuilt', hkept, ← hreset]

/-- Two instructions print the zeros of `c` on a line.  The reset keeps the line and the position of
the print switch. -/
theorem reset_forgets_hp10 :
    let rom : Rom := ⟨#[0o1720, 0o1120]⟩
    let cpu := (((new .hp10 rom).perform (.setPrintMode .all)).perform .tick).perform .tick
    cpu.reset = (new .hp10 rom).keeping cpu.kept ∧ cpu.pc = 2 ∧ cpu.reset.pc = 0 ∧
      cpu.reset.kept.printing = some (.all, #["      00000000000000"]) := by
  have hreach : Reaches (fun _ _ => True) (new .hp10 ⟨#[0o1720, 0o1120]⟩)
      ((((new .hp10 ⟨#[0o1720, 0o1120]⟩).perform (.setPrintMode .all)).perform .tick).perform
        .tick) :=
    .act .tick (.act .tick (.act (.setPrintMode .all) .start trivial) trivial) trivial
  exact ⟨(reset_forgets hreach).1, rfl, rfl, by decide⟩

end Processor

end Calculator

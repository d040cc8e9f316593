/-
# The host's inputs

Some of a processor's state is for the host to set: the image and the model, the key that is held,
the switches, the print mode.  Instructions read it and leave it alone (`SameInputs`).  The one
exception is the key code, which an HP-10 takes out: one of its instructions hands the code over in
`c[2:1]` and forgets it (`ReadsKey`).  So a key that was pressed once is handed over at most once,
however ticks and the acts of the host follow one another (`keysRead_sublist`).

`inputs_belong_to_host` puts the statements together.
-/
import Calculator.Proofs.Reset

namespace Calculator

/-- The code of the key that the act presses. -/
def Act.pressed? : Act → Option Nat
  | press code => some code.toNat
  | _ => none

/-- Every Nut latches the key in the keyboard flag. -/
theorem Model.inputs_of_nut {model : Model} (h : model.hardware.family = .nut) :
    model.hardware.inputs = .nut := by
  cases model <;> first | rfl | cases h

/-! ## 1. The print mode -/

namespace Printer

theorem mode_flush (p : Printer) : p.flush.mode = p.mode := by
  unfold flush
  split <;> rfl

theorem mode_write (p : Printer) (codes : List Nat) : (p.write codes).1.mode = p.mode := by
  induction codes generalizing p with
  | nil => rfl
  | cons code codes ih =>
    unfold write
    split
    · rfl
    · exact ih (p.put code)

theorem mode_printNumeric (p : Printer) (r : Register) : (p.printNumeric r).1.mode = p.mode := by
  have hdrop : p.dropBlank.mode = p.mode := by
    unfold dropBlank
    split <;> rfl
  exact (mode_write _ _).trans hdrop

theorem mode_printAlpha (p : Printer) (r : Register) : (p.printAlpha r).1.mode = p.mode :=
  mode_write p _

end Printer

namespace Processor

variable {cpu cpu' : Processor}

/-- The position of the print switch, where there is one. -/
def printMode? (cpu : Processor) : Option PrintMode := cpu.printer.map Printer.mode

theorem printMode?_runPrinter (cpu : Processor) (op : PrinterOp) :
    (cpu.runPrinter op).cpu.printMode? = cpu.printMode? := by
  unfold runPrinter
  split
  next printer hprinter =>
    have hput : ∀ x : Printer, x.mode = printer.mode →
        (some x).map Printer.mode = cpu.printMode? := by
      intro x hmode
      rw [printMode?, hprinter]
      exact congrArg some hmode
    cases op with
    | printLine => exact hput _ printer.mode_flush
    | printLineAndPoll =>
      simp only [runPrinterWith, Outcome.done]
      split <;> exact hput _ printer.mode_flush
    | numeric =>
      simp only [runPrinterWith, takePrinter]
      split <;> exact hput _ (printer.mode_printNumeric _)
    | alpha =>
      simp only [runPrinterWith, takePrinter]
      split <;> exact hput _ (printer.mode_printAlpha _)
  · rfl

/-! ## 2. What a tick leaves alone -/

/-- The host's inputs to the two processors are the same, up to the key code. -/
structure SameInputs (cpu cpu' : Processor) : Prop where
  rom : cpu'.rom = cpu.rom
  model : cpu'.model = cpu.model
  pressed : cpu'.keyboard.pressed = cpu.keyboard.pressed
  /-- The program/run and timer switches and the trace setting. -/
  switches : cpu'.switches = cpu.switches
  printMode? : cpu'.printMode? = cpu.printMode?

theorem printMode?_tick (cpu : Processor) : cpu.tick.cpu.printMode? = cpu.printMode? := by
  have hframe : ∀ {cs cpu₁ cpu₂}, ChangesOnly cs cpu₁ cpu₂ → Component.printer ∉ cs →
      cpu₂.printMode? = cpu₁.printMode? :=
    fun hchange hno => congrArg (Option.map Printer.mode) (hchange .printer hno)
  refine tick_preserves (motive := fun cpu' => cpu'.printMode? = cpu.printMode?) rfl ?_ ?_ ?_ ?_
  · exact fun h => (hframe cpu.changesOnly_latchInputs (by simp)).trans h
  · exact fun h => (hframe cpu.latchInputs.changesOnly_fetched (by simp)).trans h
  · intro word i _ h
    have hchange := cpu.ready.run_changesOnly i
    cases i with
    | printer x => exact (cpu.ready.printMode?_runPrinter x).trans h
    | nop => exact (hframe hchange (by simp)).trans h
    | arithmetic x _ | move x | digit x | status x | pointer x | flow x | data x | control x
    | card x => exact (hframe hchange (by cases x <;> simp [RegisterName.all])).trans h
  · exact fun cpu' word h => (hframe (cpu'.changesOnly_opcode word) (by simp)).trans h

theorem sameInputs_tick (cpu : Processor) : SameInputs cpu cpu.tick.cpu where
  rom := cpu.tick_agrees (c := .rom) (by simp [hostOwned])
  model := cpu.tick_agrees (c := .model) (by simp [hostOwned])
  pressed := cpu.tick_agrees (c := .keyPressed) (by simp [hostOwned])
  switches := cpu.tick_agrees (c := .switches) (by simp [hostOwned])
  printMode? := cpu.printMode?_tick

/-! ## 3. Reading the key -/

/-- The instruction that the next tick executes, if there is one. -/
def next? (cpu : Processor) : Option Instruction :=
  if cpu.isRunning then
    (cpu.rom.word? cpu.pc).bind fun word => (Instruction.decode cpu.hardware word).toOption
  else none

theorem next?_eq_some_iff {i : Instruction} : cpu.next? = some i ↔ ∃ word, cpu.Executes word i := by
  unfold next?
  constructor
  · intro h
    split at h
    · obtain ⟨word, hword, hdecode⟩ := Option.bind_eq_some_iff.mp h
      refine ⟨word, ‹_›, hword, ?_⟩
      cases hresult : Instruction.decode cpu.hardware word with
      | ok i' =>
        rw [hresult] at hdecode
        exact congrArg Except.ok (Option.some.inj hdecode)
      | error e =>
        rw [hresult] at hdecode
        cases hdecode
    · cases h
  · rintro ⟨word, hi⟩
    rw [if_pos hi.isRunning, hi.word_eq, Option.bind_some, hi.decode_eq]
    rfl

/-- The processor is an HP-10 about to load the data register 15 with the key code selected. -/
def ReadsKey (cpu : Processor) : Prop :=
  cpu.model = .hp10 ∧ cpu.dataAddress = keyAddress ∧ cpu.next? = some (.data (.loadAt 15))

instance (cpu : Processor) : Decidable cpu.ReadsKey := inferInstanceAs (Decidable (_ ∧ _ ∧ _))

/-- Only the HP-10 has its printer. -/
def PrinterBuilt (cpu : Processor) : Prop := cpu.printer.isSome = true ↔ cpu.model = .hp10

theorem PrinterBuilt.of_sameParts (h : cpu.PrinterBuilt) (hparts : SameParts cpu cpu') :
    cpu'.PrinterBuilt := by
  unfold PrinterBuilt
  rw [hparts.printer_isSome, hparts.model]
  exact h

theorem printerBuilt_ready (h : cpu.PrinterBuilt) : cpu.ready.PrinterBuilt :=
  h.of_sameParts (cpu.changesOnly_ready.sameParts (by simp))

/-- The code stands in `[2:1]` of the register afterwards, with a zero below. -/
structure HandedOver (code : Nat) (before after : Register) : Prop where
  digit_zero : after.digit 0 = 0
  digit_one : after.digit 1 = code % 0x10
  digit_two : after.digit 2 = code / 0x10
  digit_of_lt : ∀ i, 2 < i → after.digit i = before.digit i

theorem handedOver_splice (code : Nat) (r : Register) :
    HandedOver code r (r.splice ⟨0, 2⟩ [0, code % 0x10, code / 0x10]) where
  digit_zero := by rw [Register.digit_splice _ _ _ (by decide)]; rfl
  digit_one := by rw [Register.digit_splice _ _ _ (by decide)]; rfl
  digit_two := by rw [Register.digit_splice _ _ _ (by decide)]; rfl
  digit_of_lt := by
    intro i hi
    rcases Nat.lt_or_ge i 14 with hlt | hge
    · rw [Register.digit_splice _ _ _ hlt, if_neg fun hin => Nat.not_le.mpr hi hin.2]
    · rw [Register.digit_of_le _ hge, Register.digit_of_le _ hge]

theorem HandedOver.value_eq {code : Nat} {before after : Register}
    (h : HandedOver code before after) : after.digit 2 * 0x10 + after.digit 1 = code := by
  rw [h.digit_one, h.digit_two]
  omega

theorem keyCode_run {i : Instruction}
    (hno : ¬(cpu.printer.isSome = true ∧ cpu.dataAddress = keyAddress ∧ i = .data (.loadAt 15))) :
    (cpu.run i).cpu.keyboard.code = cpu.keyboard.code := by
  have hchange := cpu.run_changesOnly i
  cases i with
  | data x =>
    cases x with
    | loadAt n =>
      simp only [run, runData, loadAt]
      split
      next hprinter =>
        have hother : ¬(n = 0xf ∧ cpu.dataAddress = keyAddress) := by
          rintro ⟨rfl, haddress⟩
          exact hno ⟨hprinter, haddress, rfl⟩
        rw [if_neg hother]
        rfl
      next => exact cpu.changesOnly_selectInBlock n .keyCode (by simp)
    | _ => exact hchange .keyCode (by simp)
  | nop => exact hchange .keyCode (by simp)
  | arithmetic x _ | move x | digit x | status x | pointer x | flow x | control x | card x
  | printer x => exact hchange .keyCode (by cases x <;> simp [RegisterName.all])

/-- **A tick that reads the key hands its code over and forgets it.** -/
theorem tick_of_readsKey (hbuilt : cpu.PrinterBuilt) (h : cpu.ReadsKey) :
    cpu.tick.cpu.keyboard.code = 0 ∧
      HandedOver cpu.keyboard.code (cpu.register .c) (cpu.tick.cpu.register .c) := by
  obtain ⟨hmodel, haddress, hnext⟩ := h
  obtain ⟨word, hi⟩ := next?_eq_some_iff.mp hnext
  have hprinter : cpu.ready.printer.isSome = true :=
    (printerBuilt_ready hbuilt).mpr (cpu.ready_model.trans hmodel)
  have hselected : cpu.ready.dataAddress = keyAddress :=
    Eq.trans (cpu.changesOnly_ready .dataAddress (by simp)) haddress
  have hcode : cpu.ready.keyboard.code = cpu.keyboard.code :=
    cpu.changesOnly_ready .keyCode (by simp)
  have hc : cpu.ready.register .c = cpu.register .c :=
    cpu.changesOnly_ready (.register .c) (by simp)
  have hread : (cpu.ready.run (.data (.loadAt 15))).cpu = cpu.ready.readKey := by
    simp only [run, runData, loadAt, hprinter, hselected, and_self, if_true]
    rfl
  have htick := hi.tick_eq.1
  rw [hread] at htick
  rw [htick, ← hcode, ← hc]
  exact ⟨rfl, handedOver_splice _ _⟩

/-- **Every other tick leaves the key code alone.** -/
theorem keyCode_tick (hbuilt : cpu.PrinterBuilt) (h : ¬cpu.ReadsKey) :
    cpu.tick.cpu.keyboard.code = cpu.keyboard.code := by
  have hready : cpu.ready.keyboard.code = cpu.keyboard.code :=
    cpu.changesOnly_ready .keyCode (by simp)
  refine tick_preserves (motive := fun cpu' => cpu'.keyboard.code = cpu.keyboard.code) rfl
    (fun _ => cpu.changesOnly_latchInputs .keyCode (by simp)) (fun _ => hready) ?_
    fun _ _ hcode => hcode
  intro word i hi _
  refine (keyCode_run ?_).trans hready
  rintro ⟨hprinter, haddress, rfl⟩
  refine h ⟨?_, ?_, next?_eq_some_iff.mpr ⟨word, hi⟩⟩
  · rw [← cpu.ready_model]
    exact (printerBuilt_ready hbuilt).mp hprinter
  · rw [← haddress]
    exact (cpu.changesOnly_ready .dataAddress (by simp)).symm

/-! ## 4. Runs -/

/-- The code that the key has left to be read, if it is not zero. -/
def pendingKey? (cpu : Processor) : Option Nat :=
  if cpu.keyboard.code = 0 then none else some cpu.keyboard.code

/-- The code that the act hands over, as it then stands in `c`, if it is not zero. -/
def keyRead? (cpu : Processor) : Act → Option Nat
  | .tick =>
    let c := cpu.tick.cpu.register .c
    let code := c.digit 2 * 0x10 + c.digit 1
    if cpu.ReadsKey ∧ code ≠ 0 then some code else none
  | _ => none

/-- The codes other than zero that a run of acts hands over. -/
def keysRead (cpu : Processor) : List Act → List Nat
  | [] => []
  | a :: acts => (cpu.keyRead? a).toList ++ (cpu.perform a).keysRead acts

theorem keyCode_press (cpu : Processor) (code : UInt8) :
    (cpu.perform (.press code)).keyboard.code = code.toNat := by
  simp only [perform, press]
  split <;> rfl

/-- Restoring a record presses no key. -/
theorem keyCode_restore (cpu : Processor) (bytes : List UInt8) :
    (Record.read cpu bytes).cpu.keyboard.code = cpu.keyboard.code := by
  refine Record.readSlots_preserves (motive := fun cpu' => cpu'.keyboard.code = cpu.keyboard.code)
    ?_ rfl bytes
  intro slot _ cpu' v hcode
  refine Eq.trans (slot.assign_changesOnly cpu' v .keyCode ?_) hcode
  cases slot with
  | flag x => cases x <;> simp [Slot.component, Flag.component]
  | _ => simp [Slot.component]

/-- **No act makes a key out of nothing**: what it hands over and what it leaves to be read was there
to be read, or has just been pressed. -/
theorem keyRead?_sublist (hbuilt : cpu.PrinterBuilt) (a : Act) :
    ((cpu.keyRead? a).toList ++ (cpu.perform a).pendingKey?.toList).Sublist
      (cpu.pendingKey?.toList ++ a.pressed?.toList) := by
  have hkept : (cpu.perform a).keyboard.code = cpu.keyboard.code →
      (cpu.perform a).pendingKey? = cpu.pendingKey? := by
    intro hcode
    rw [pendingKey?, hcode]
    rfl
  -- a tick may move the code from the pending ones to those handed over, a press may replace it and
  -- a reset drop it; all other acts keep it
  cases a with
  | tick =>
    by_cases hreads : cpu.ReadsKey
    · obtain ⟨hcode, hover⟩ := tick_of_readsKey hbuilt hreads
      have hread : cpu.keyRead? .tick = cpu.pendingKey? := by
        simp only [keyRead?, hover.value_eq, hreads, true_and, pendingKey?]
        rw [ite_not]
      have hnone : (cpu.perform .tick).pendingKey? = none := if_pos hcode
      rw [hread, hnone]
      exact List.Sublist.refl _
    · have hread : cpu.keyRead? .tick = none := if_neg fun h => hreads h.1
      rw [hread, hkept (keyCode_tick hbuilt hreads)]
      exact List.sublist_append_left _ _
  | press code =>
    refine .trans ?_ (List.sublist_append_right _ _)
    rw [pendingKey?, keyCode_press]
    split
    · exact List.nil_sublist _
    · exact List.Sublist.refl _
  | reset => exact List.nil_sublist _
  | restore bytes =>
    rw [hkept (cpu.keyCode_restore bytes)]
    exact List.sublist_append_left _ _
  | arithmetic op s =>
    rw [hkept (cpu.perform_changesOnly rfl .keyCode (by cases op <;> simp [Act.footprint]))]
    exact List.sublist_append_left _ _
  | release | wake | setProgram _ | setTimer _ | setTrace _ | setPrintMode _ | takePrinted | call _
  | ret =>
    rw [hkept (cpu.perform_changesOnly rfl .keyCode (by simp [Act.footprint]))]
    exact List.sublist_append_left _ _

/-- **Every code is handed over at most once**: a run hands over the codes of keys that it presses,
in their order, and before them at most the one that was there to be read. -/
theorem keysRead_sublist (hbuilt : cpu.PrinterBuilt) (acts : List Act) :
    (cpu.keysRead acts).Sublist (cpu.pendingKey?.toList ++ acts.filterMap Act.pressed?) := by
  induction acts generalizing cpu with
  | nil => exact List.nil_sublist _
  | cons a acts ih =>
    have hrest := ih (hbuilt.of_sameParts (cpu.sameParts_perform a))
    have hpressed : (a :: acts).filterMap Act.pressed? =
        a.pressed?.toList ++ acts.filterMap Act.pressed? := by
      rw [List.filterMap_cons]
      cases a.pressed? <;> rfl
    have hstep := (keyRead?_sublist hbuilt a).append_right (acts.filterMap Act.pressed?)
    rw [List.append_assoc, List.append_assoc, ← hpressed] at hstep
    exact (hrest.append_left (cpu.keyRead? a).toList).trans hstep

/-! ## 5. The keyboard flag of a Nut -/

theorem flag_run {i : Instruction} (hpressed : cpu.keyboard.pressed = true)
    (hflag : cpu.keyboard.flag = true) : (cpu.run i).cpu.keyboard.flag = true := by
  have hframe : Component.keyFlag ∉ i.footprint → (cpu.run i).cpu.keyboard.flag = true :=
    fun hno => Eq.trans (cpu.run_changesOnly i .keyFlag hno) hflag
  cases i with
  | status x =>
    cases x with
    | resetKeyboard =>
      simp only [run, runStatus, hpressed]
      exact hflag
    | _ => exact hframe (by simp)
  | nop => exact hframe (by simp)
  | arithmetic x _ | move x | digit x | pointer x | flow x | data x | control x | card x
  | printer x => exact hframe (by cases x <;> simp [RegisterName.all])

/-- **With a key held down a tick leaves the keyboard flag of a Nut set**, whatever it executes and
also if it fails. -/
theorem flag_tick (hnut : cpu.hardware.family = .nut) (hrunning : cpu.isRunning = true)
    (hpressed : cpu.keyboard.pressed = true) : cpu.tick.cpu.keyboard.flag = true := by
  have hinputs : cpu.hardware.inputs = .nut := Model.inputs_of_nut hnut
  have hlatched : cpu.latchInputs.keyboard.flag = true := by
    simp only [latchInputs, hinputs, hpressed, Bool.true_or]
  have hready : cpu.ready.keyboard.flag = true :=
    Eq.trans (cpu.latchInputs.changesOnly_fetched .keyFlag (by simp)) hlatched
  have hheld : cpu.ready.keyboard.pressed = true :=
    Eq.trans (cpu.changesOnly_ready .keyPressed (by simp)) hpressed
  rcases tick_cases cpu with ⟨hnot, -⟩ | ⟨-, -, heq⟩ | ⟨word, e, -, -, -, heq, -⟩ |
    ⟨word, i, -, heq, -⟩
  · rw [hrunning] at hnot
    cases hnot
  · rw [heq]
    exact hlatched
  · rw [heq]
    exact hready
  · rw [heq]
    exact flag_run hheld hready

/-! ## 6. Every history -/

/-- **What the host sets is the host's.**  Whatever a tick executes, and also if it fails, it leaves
the inputs alone.  The key code it leaves alone too, unless it is the instruction of the HP-10 that
hands the code over and forgets it; so from one press no run gets its code twice.  A Nut notices in
every tick that a key is held. -/
theorem inputs_belong_to_host {model : Model} {rom : Rom} {allowed : Processor → Act → Prop}
    (h : Reaches allowed (new model rom) cpu) :
    SameInputs cpu cpu.tick.cpu ∧
    (¬cpu.ReadsKey → cpu.tick.cpu.keyboard.code = cpu.keyboard.code) ∧
    (cpu.ReadsKey → cpu.tick.cpu.keyboard.code = 0 ∧
      HandedOver cpu.keyboard.code (cpu.register .c) (cpu.tick.cpu.register .c)) ∧
    (∀ acts, (cpu.keysRead acts).Sublist (cpu.keyboard.code :: acts.filterMap Act.pressed?)) ∧
    (∀ code acts, acts.filterMap Act.pressed? = [] →
      ((cpu.perform (.press code)).keysRead acts).Sublist [code.toNat]) ∧
    (cpu.hardware.family = .nut → cpu.isRunning = true → cpu.keyboard.pressed = true →
      cpu.tick.cpu.keyboard.flag = true) := by
  obtain ⟨hparts, -⟩ := built_of_reaches h
  have hbuilt : cpu.PrinterBuilt := by
    unfold PrinterBuilt
    rw [hparts.printer_isSome_iff, h.model_rom.1]
    rfl
  have hpending : ∀ cpu' : Processor, cpu'.pendingKey?.toList.Sublist [cpu'.keyboard.code] := by
    intro cpu'
    unfold pendingKey?
    split
    · exact List.nil_sublist _
    · exact List.Sublist.refl _
  refine ⟨cpu.sameInputs_tick, keyCode_tick hbuilt, tick_of_readsKey hbuilt, ?_, ?_, flag_tick⟩
  · intro acts
    exact (keysRead_sublist hbuilt acts).trans ((hpending cpu).append_right _)
  · intro code acts hnone
    have hruns := keysRead_sublist (hbuilt.of_sameParts (cpu.sameParts_perform (.press code))) acts
    rw [hnone, List.append_nil] at hruns
    rw [← cpu.keyCode_press code]
    exact hruns.trans (hpending _)

/-- The data address 0xff is put together from two digits.  A key is pressed, and the next two
instructions both load the data register 15: the first one gets the code, the second one nothing. -/
theorem inputs_belong_to_host_hp10 :
    let rom : Rom := ⟨#[0o1074, 0o1730, 0o1730, 0o1160, 0o1770, 0o1770]⟩
    let selected := (List.replicate 4 Act.tick).foldl perform (new .hp10 rom)
    let cpu := selected.perform (.press 0x43)
    cpu.ReadsKey ∧ cpu.tick.cpu.ReadsKey ∧ cpu.keysRead [.tick, .tick] = [0x43] ∧
      (cpu.keysRead [.tick, .tick]).Sublist [0x43] := by
  have hreach : ∀ start : Processor,
      Reaches (fun _ _ => True) start ((List.replicate 4 Act.tick).foldl perform start) :=
    fun _ => .act .tick (.act .tick (.act .tick (.act .tick .start trivial) trivial) trivial) trivial
  have hpress := (inputs_belong_to_host (hreach (new .hp10
    ⟨#[0o1074, 0o1730, 0o1730, 0o1160, 0o1770, 0o1770]⟩))).2.2.2.2.1 0x43 [.tick, .tick] rfl
  exact ⟨by decide, by decide, by decide, hpress⟩

end Processor

end Calculator

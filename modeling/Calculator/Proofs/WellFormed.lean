/-
# Well-formed processors

What a processor may rely on at any time beyond the range of its digits: the return stack knows its
next cell, status bits that the part does not have are clear, and each peripheral is there if the
model has it and keeps within its own bounds.  `WellFormed` collects all of it, and
`wellFormed_of_reaches` says that nothing that can happen to a processor breaks any of it.
-/
import Calculator.Proofs.Digits
import Calculator.Proofs.PointerRange
import Calculator.Proofs.Restore

namespace Calculator

namespace Processor

variable {cpu : Processor}

/-! ## 1. The return stack -/

/-- The next cell of the return stack is one of the four. -/
def StackFit (cpu : Processor) : Prop := cpu.stack.next < 4

theorem stackFit_dependsOn : DependsOn StackFit [.stack] := by
  intro cpu cpu' hagree h
  have hstack : cpu'.stack = cpu.stack := hagree .stack (by simp)
  unfold StackFit
  rw [hstack]
  exact h

/-- A push leaves a next cell among the four, whatever it has found. -/
theorem stackFit_call (cpu : Processor) (target : Address) : (cpu.call target).StackFit := by
  have hpush : ∀ pc, ({ cpu with stack := cpu.stack.push cpu.pc, pc := pc } : Processor).StackFit :=
    fun _ => Nat.mod_lt _ (by decide)
  unfold call
  dsimp only
  split
  · exact hpush _
  · exact (changesOnly_settlePage _).preserves stackFit_dependsOn (by simp) (hpush _)

theorem stackFit_ret (cpu : Processor) : cpu.ret.StackFit := Nat.mod_lt _ (by decide)

/-- What pushes or pops counts round the ring, and nothing else touches the stack. -/
theorem StackFit.run (h : cpu.StackFit) {i : Instruction}
    (htouch : ∃ c ∈ [Component.stack], c ∈ i.footprint) : (cpu.run i).cpu.StackFit := by
  cases i with
  | flow x =>
    cases x with
    | call target => exact stackFit_call cpu target
    | «return» | romChecksum => exact stackFit_ret _
    | returnIf carry =>
      simp only [Processor.run, runFlow, Outcome.done]
      split
      · exact stackFit_ret _
      · exact h
    | longBranch low =>
      have hnext : ∀ cpu' : Processor, cpu'.stack = cpu.stack → cpu'.StackFit := by
        intro cpu' hstack
        unfold StackFit
        rw [hstack]
        exact h
      simp only [Processor.run, runFlow, longBranch]
      split
      · exact h
      · -- passed, called, refused or gone to: of these the call alone pushes
        repeat' split
        all_goals first | exact stackFit_call _ _ | exact hnext _ rfl
    | pushC | popC => exact Nat.mod_lt _ (by decide)
    | _ => simp at htouch
  | nop => simp at htouch
  | arithmetic x _ | move x | digit x | status x | pointer x | data x | control x | card x
  | printer x => cases x <;> simp [RegisterName.all] at htouch

/-- The host pushes and pops the same way, and no record holds the stack. -/
theorem stackFit_invariant (allowed : Processor → Act → Prop) : Invariant allowed StackFit := by
  refine .of_dependsOn stackFit_dependsOn (by simp) (by simp) (fun _ _ _ htouch h => h.run htouch)
    ?_ (fun _ => (by decide : 0 < 4)) ?_
  · intro cpu a _ htouch h
    cases a with
    | call target => exact stackFit_call _ _
    | ret => exact stackFit_ret _
    | arithmetic op s => cases op <;> simp [Act.footprint] at htouch
    | _ => simp [Act.footprint] at htouch
  · exact fun v _ htouch _ => absurd htouch (Slot.component_not_mem (by simp [Component.unsaved]) _)

/-- The return stack is fit whatever the words of the image are. -/
theorem stackFit_of_reaches {allowed : Processor → Act → Prop} {model : Model} {rom : Rom}
    (h : Reaches allowed (new model rom) cpu) : cpu.StackFit := by
  have hP := stackFit_invariant allowed
  have hnew : (new model rom).StackFit := (by decide : 0 < 4)
  refine h.invariant hnew ?_
  intro cpu a _ _ ih
  cases a with
  | tick =>
    refine tick_preserves ih hP.latchInputs hP.fetched ?_ fun _ word h => hP.opcode word h
    intro word i _ hready
    by_cases htouch : ∃ c ∈ [Component.stack], c ∈ i.footprint
    · exact hready.run htouch
    · exact (run_changesOnly _ i).preserves stackFit_dependsOn (fun c hc hi => htouch ⟨c, hc, hi⟩) hready
  | reset => exact hP.reset ih
  | restore bytes => exact hP.read ih bytes
  | _ => exact hP.small _ rfl ih

/-! ## 2. The status bits -/

/-- The status bits that the part does not have are clear. -/
def StatusFit (cpu : Processor) : Prop := ∀ i, cpu.hardware.statusBits ≤ i → cpu.bit i = false

theorem statusFit_dependsOn : DependsOn StatusFit [.model, .status] := by
  intro cpu cpu' hagree h i hi
  have hmodel : cpu'.model = cpu.model := hagree .model (by simp)
  have hstatus : cpu'.status = cpu.status := hagree .status (by simp)
  rw [hardware, hmodel] at hi
  rw [bit, hstatus]
  exact h i hi

theorem StatusFit.frame {cs : List Component} {cpu' : Processor} (h : cpu.StatusFit)
    (hchange : ChangesOnly cs cpu cpu') (hdisj : ∀ c ∈ [Component.model, .status], c ∉ cs) :
    cpu'.StatusFit :=
  hchange.preserves statusFit_dependsOn hdisj h

/-- Every part has twelve to sixteen status bits. -/
theorem statusBits_bounds (cpu : Processor) :
    12 ≤ cpu.hardware.statusBits ∧ cpu.hardware.statusBits ≤ 16 := by
  unfold hardware
  cases cpu.model <;> decide

/-- A bit that the part has may take any value. -/
theorem StatusFit.setBit (h : cpu.StatusFit) {i : Nat} (hi : i < cpu.hardware.statusBits)
    (v : Bool) : (cpu.setBit i v).StatusFit := by
  intro j hj
  have hlt : i < cpu.hardware.statusBits ∧ cpu.hardware.statusBits ≤ j := ⟨hi, hj⟩
  rw [Slot.bit_setBit cpu i j v (Nat.lt_of_lt_of_le hi cpu.statusBits_bounds.2),
    if_neg (by omega)]
  exact h j hj

/-- Every part has the first twelve bits. -/
theorem StatusFit.setBit_low (h : cpu.StatusFit) {i : Nat} (hi : i < 12) (v : Bool) :
    (cpu.setBit i v).StatusFit :=
  h.setBit (Nat.lt_of_lt_of_le hi cpu.statusBits_bounds.1) v

theorem StatusFit.raise (h : cpu.StatusFit) {i : Nat} (hi : i < cpu.hardware.statusBits)
    (v : Bool) : (cpu.raise i v).StatusFit := by
  unfold Processor.raise
  split
  · exact h.setBit hi true
  · exact h

/-- A bit of a status that is given bit by bit. -/
theorem bit_ofFn (cpu : Processor) (f : Fin 16 → Bool) (i : Nat) :
    ({ cpu with status := Vector.ofFn f } : Processor).bit i
      = if h : i < 16 then f ⟨i, h⟩ else false := by
  by_cases h : i < 16 <;> simp [bit, Vector.getD, h]

theorem bit_of_lt (cpu : Processor) {i : Nat} (h : i < 16) : cpu.bit i = cpu.status[i] := by
  simp [bit, Vector.getD, h]

/-- A new status that sets none of the upper bits. -/
theorem StatusFit.with_status (h : cpu.StatusFit) {f : Fin 16 → Bool}
    (hf : ∀ i : Fin 16, 12 ≤ i.val → cpu.bit i.val = false → f i = false) :
    ({ cpu with status := Vector.ofFn f } : Processor).StatusFit := by
  intro i hi
  have hmodel : ({ cpu with status := Vector.ofFn f } : Processor).model = cpu.model := rfl
  rw [hardware, hmodel] at hi
  rw [bit_ofFn]
  split
  · exact hf ⟨i, ‹_›⟩ (Nat.le_trans cpu.statusBits_bounds.1 hi) (h i hi)
  · rfl

/-- A clear sets no bit. -/
theorem StatusFit.clearBits (h : cpu.StatusFit) (keep : Nat → Bool) :
    (cpu.clearBits keep).StatusFit := by
  refine h.with_status ?_
  intro i _ hold
  rw [bit_of_lt cpu i.isLt] at hold
  exact Bool.and_eq_false_iff.mpr (.inl hold)

/-- Two digits go to s0 to s7, which every part has. -/
theorem StatusFit.putStatusDigits (h : cpu.StatusFit) (low high : Nat) :
    (cpu.putStatusDigits low high).StatusFit := by
  refine h.with_status ?_
  intro i hi hold
  rw [bit_of_lt cpu i.isLt] at hold
  rw [if_neg (by omega), if_neg (by omega)]
  exact hold

theorem StatusFit.raise_low (h : cpu.StatusFit) {i : Nat} (hi : i < 12) (v : Bool) :
    (cpu.raise i v).StatusFit :=
  h.raise (Nat.lt_of_lt_of_le hi cpu.statusBits_bounds.1) v

/-- The inputs of a part go to bits that it has. -/
theorem StatusFit.latchInputs (h : cpu.StatusFit) : cpu.latchInputs.StatusFit := by
  -- the parts that latch the key in s15 have all sixteen bits
  have hbits : cpu.hardware.inputs ∈ [InputStyle.woodstock, .spice, .hp67] →
      15 < cpu.hardware.statusBits := by
    unfold hardware
    cases cpu.model <;> decide
  unfold Processor.latchInputs
  dsimp only
  split
  case h_1 => exact ((h.raise_low (by decide) _).raise_low (by decide) _).raise_low (by decide) _
  case h_2 | h_3 =>
    have htop : 15 < cpu.hardware.statusBits := hbits (by simp_all)
    exact ((h.raise htop _).raise_low (by decide) _).setBit_low (by decide) _
  case h_4 =>
    have htop : 15 < cpu.hardware.statusBits := hbits (by simp_all)
    exact h.raise htop _
  case h_5 => exact h
  case h_6 => exact h

/-- An instruction that names a bit which the part does not have leaves all bits alone. -/
theorem StatusFit.putStatus (h : cpu.StatusFit) (bit : Nat) (v : Bool) :
    (cpu.putStatus bit v).cpu.StatusFit := by
  unfold Processor.putStatus
  split
  · exact h.setBit ‹_› v
  · exact h

/-- The card reader answers in s3, which every part has. -/
theorem StatusFit.runCard (h : cpu.StatusFit) (x : CardOp) : (cpu.runCard x).StatusFit := by
  have hset : ∀ v, (cpu.setBit 3 v).StatusFit := h.setBit_low (by decide)
  unfold Processor.runCard
  split
  · cases x with
    | eject | testCard | testRun | take flag => exact hset _
    | set flag | idle => exact h
  · exact h

/-- The printer answers in s3 too. -/
theorem StatusFit.runPrinter (h : cpu.StatusFit) (x : PrinterOp) :
    (cpu.runPrinter x).cpu.StatusFit := by
  have hset : ∀ v, (cpu.setBit 3 v).StatusFit := h.setBit_low (by decide)
  unfold Processor.runPrinter
  split
  · cases x with
    | printLine => exact hset true
    | printLineAndPoll =>
      simp only [runPrinterWith, Outcome.done]
      split
      · exact hset true
      · exact h
    | numeric | alpha =>
      simp only [runPrinterWith, takePrinter]
      split <;> exact h
  · exact h

/-- No instruction sets a bit that the part does not have. -/
theorem StatusFit.run (h : cpu.StatusFit) {i : Instruction}
    (htouch : ∃ c ∈ [Component.model, .status], c ∈ i.footprint) : (cpu.run i).cpu.StatusFit := by
  cases i with
  | status x =>
    cases x with
    | set bit value => exact h.putStatus bit value
    | clearAll => exact h.clearBits fun _ => false
    | clearFree => exact h.clearBits fun i => cpu.keptBits.contains i
    | clearLow => exact h.clearBits fun i => 8 ≤ i
    | exchangeC =>
      have hput : ∀ low high ds, ((cpu.putStatusDigits low high).putFrom .c 0 ds).StatusFit :=
        fun low high ds => (h.putStatusDigits low high).frame (changesOnly_putFrom _ .c 0 ds) (by simp)
      exact hput _ _ _
    | _ => simp at htouch
  | flow x =>
    cases x with
    | romChecksum =>
      have hset : (cpu.setBit 5 false).StatusFit := h.setBit_low (by decide) false
      exact hset.frame (changesOnly_ret _) (by simp)
    | _ => simp at htouch
  | card x => exact h.runCard x
  | printer x => exact h.runPrinter x
  | nop => simp at htouch
  | arithmetic x _ | move x | digit x | pointer x | data x | control x =>
    cases x <;> simp [RegisterName.all] at htouch

/-- At power on only s5 may be set. -/
theorem statusFit_reset (cpu : Processor) : cpu.reset.StatusFit := by
  have hlow : ∀ (family : Family) (i : Fin 16), 12 ≤ i.val →
      (powerOnStatus family).getD i false = false := by
    intro family
    cases family <;> decide
  intro i hi
  show (powerOnStatus _).getD i false = false
  by_cases hlt : i < 16
  · exact hlow _ ⟨i, hlt⟩ (Nat.le_trans cpu.statusBits_bounds.1 hi)
  · simp [Vector.getD, hlt]

/-- A record holds the bits of the model and no others. -/
theorem statusFit_invariant (allowed : Processor → Act → Prop) : Invariant allowed StatusFit := by
  refine .of_dependsOn statusFit_dependsOn (by simp) (fun _ h => h.latchInputs)
    (fun _ _ _ htouch h => h.run htouch) ?_ (fun _ => statusFit_reset _) ?_
  · intro cpu a _ htouch h
    cases a with
    | arithmetic op s => cases op <;> simp [Act.footprint] at htouch
    | _ => simp [Act.footprint] at htouch
  · intro cpu slot v hslot htouch h
    cases slot with
    | status bit =>
      refine h.setBit (Nat.lt_of_not_le fun hle => ?_) _
      exact Record.status_not_mem_layout hle hslot
    | flag x => cases x <;> simp [Slot.component, Flag.component] at htouch
    | _ => simp [Slot.component] at htouch

/-! ## 3. The pending ROM number -/

/-- On a Nut there are no selects to wait for a jump. -/
def SelectFit (cpu : Processor) : Prop := cpu.hardware.family = .nut → cpu.romNumber = 0

theorem selectFit_dependsOn : DependsOn SelectFit [.model, .romNumber] := by
  intro cpu cpu' hagree h hnut
  have hmodel : cpu'.model = cpu.model := hagree .model (by simp)
  have hnumber : cpu'.romNumber = cpu.romNumber := hagree .romNumber (by simp)
  rw [hardware, hmodel] at hnut
  rw [hnumber]
  exact h hnut

/-- A Nut has no word that selects with delay. -/
theorem SelectFit.run {i : Instruction} (hfits : i.Fits cpu.hardware)
    (htouch : ∃ c ∈ [Component.model, .romNumber], c ∈ i.footprint) :
    (cpu.run i).cpu.SelectFit := by
  cases i with
  | flow x =>
    cases x with
    | delayedSelectRom number => exact fun hnut => absurd hnut hfits.2
    | _ => simp at htouch
  | nop => simp at htouch
  | arithmetic x _ | move x | digit x | status x | pointer x | data x | control x | card x
  | printer x => cases x <;> simp [RegisterName.all] at htouch

/-- A reset leaves the number of a Nut alone and clears the others. -/
theorem selectFit_invariant (allowed : Processor → Act → Prop) : Invariant allowed SelectFit := by
  refine .of_dependsOn selectFit_dependsOn (by simp) (by simp)
    (fun _ _ hfits htouch _ => SelectFit.run hfits htouch) ?_ ?_ ?_
  · intro cpu a _ htouch h
    cases a with
    | arithmetic op s => cases op <;> simp [Act.footprint] at htouch
    | _ => simp [Act.footprint] at htouch
  · exact fun h hnut => (if_pos hnut).trans (h hnut)
  · exact fun v _ htouch _ => absurd htouch (Slot.component_not_mem (by simp [Component.unsaved]) _)

theorem selectFit_new (model : Model) (rom : Rom) : (new model rom).SelectFit :=
  (selectFit_invariant fun _ _ => True).reset fun _ => rfl

/-! ## 4. The card reader -/

/-- There is a card reader if the model has one, and it has at most four clears left to skip. -/
structure CardFit (cpu : Processor) : Prop where
  isSome : cpu.hardware.peripheral = .cardReader → cpu.card.isSome
  ready : ∀ reader ∈ cpu.card, -4 ≤ reader.ready ∧ reader.ready ≤ 0

theorem cardFit_dependsOn : DependsOn CardFit [.model, .card] := by
  intro cpu cpu' hagree h
  have hmodel : cpu'.model = cpu.model := hagree .model (by simp)
  have hcard : cpu'.card = cpu.card := hagree .card (by simp)
  constructor
  · rw [hardware, hmodel, hcard]
    exact h.isSome
  · rw [hcard]
    exact h.ready

/-- Another reader may take the place of the old one if its count is in range. -/
theorem cardFit_with_card (cpu : Processor) (reader : CardReader)
    (hready : -4 ≤ reader.ready ∧ reader.ready ≤ 0) :
    ({ cpu with card := some reader } : Processor).CardFit := by
  refine ⟨fun _ => rfl, ?_⟩
  intro reader' hreader
  cases hreader
  exact hready

/-- A skipped clear counts up by one, and at zero the counting ends. -/
theorem ready_allowClear {reader : CardReader} (h : -4 ≤ reader.ready ∧ reader.ready ≤ 0) :
    -4 ≤ reader.allowClear.2.ready ∧ reader.allowClear.2.ready ≤ 0 := by
  unfold CardReader.allowClear
  split
  · exact h
  · simp only
    omega

theorem ready_set (reader : CardReader) (v : Bool) (flag : CardFlag) :
    (reader.set v flag).ready = reader.ready := by
  cases flag <;> rfl

/-- Clearing counts, as long as there are clears to skip. -/
theorem CardFit.clearData (h : cpu.CardFit) : cpu.clearData.CardFit := by
  unfold Processor.clearData
  split
  · exact h
  · rename_i reader _ hcard
    have hnext := cpu.cardFit_with_card _ (ready_allowClear (h.ready reader hcard))
    dsimp only
    split
    · exact ⟨hnext.isSome, hnext.ready⟩
    · exact hnext
  · exact ⟨h.isSome, h.ready⟩

theorem CardFit.runCard (h : cpu.CardFit) (x : CardOp) : (cpu.runCard x).CardFit := by
  unfold Processor.runCard
  split
  · rename_i reader hcard
    have hold := h.ready reader hcard
    cases x with
    | eject =>
      have hnext := cpu.cardFit_with_card { reader with card := false } hold
      exact ⟨hnext.isSome, hnext.ready⟩
    | take flag =>
      have hnext := cpu.cardFit_with_card _ ((ready_set reader false flag).symm ▸ hold)
      exact ⟨hnext.isSome, hnext.ready⟩
    | set flag => exact cpu.cardFit_with_card _ ((ready_set reader true flag).symm ▸ hold)
    | testCard | testRun | idle => exact ⟨h.isSome, h.ready⟩
  · exact h

theorem CardFit.run (h : cpu.CardFit) {i : Instruction}
    (htouch : ∃ c ∈ [Component.model, .card], c ∈ i.footprint) : (cpu.run i).cpu.CardFit := by
  cases i with
  | data x =>
    cases x with
    | clear => exact h.clearData
    | _ => simp at htouch
  | card x => exact h.runCard x
  | nop => simp at htouch
  | arithmetic x _ | move x | digit x | status x | pointer x | flow x | control x
  | printer x => cases x <;> simp [RegisterName.all] at htouch

/-- A reset starts the count again at zero, or four below it with continuous memory. -/
theorem CardFit.reset (h : cpu.CardFit) : cpu.reset.CardFit := by
  refine ⟨?_, ?_⟩
  · intro hreader
    obtain ⟨reader, hcard⟩ := Option.isSome_iff_exists.mp (h.isSome hreader)
    simp [Processor.reset, hcard]
  · intro reader hreader
    obtain ⟨_, -, rfl⟩ := Option.map_eq_some_iff.mp hreader
    unfold CardReader.poweredOn
    dsimp only
    split <;> decide

theorem cardFit_invariant (allowed : Processor → Act → Prop) : Invariant allowed CardFit := by
  refine .of_dependsOn cardFit_dependsOn (by simp) (by simp)
    (fun _ _ _ htouch h => h.run htouch) ?_ CardFit.reset ?_
  · intro cpu a _ htouch h
    cases a with
    | arithmetic op s => cases op <;> simp [Act.footprint] at htouch
    | _ => simp [Act.footprint] at htouch
  · exact fun v _ htouch _ => absurd htouch (Slot.component_not_mem (by simp [Component.unsaved]) _)

theorem cardFit_new (model : Model) (rom : Rom) : (new model rom).CardFit := by
  refine CardFit.reset ⟨fun hreader => ?_, ?_⟩
  · exact congrArg Option.isSome (if_pos hreader)
  · intro reader hreader
    obtain ⟨-, rfl⟩ : _ ∧ CardReader.idle = reader := by simpa using hreader
    decide

/-! ## 5. The printer -/

end Processor

namespace Printer

variable {p : Printer}

/-- Printing a line brings the head back to the right end. -/
theorem head_flush_le (h : p.head ≤ 20) : p.flush.head ≤ 20 := by
  unfold flush
  split
  · exact h
  · exact Nat.le_refl 20

/-- Writing moves the head to the left. -/
theorem head_write_le (p : Printer) (codes : List Nat) : (p.write codes).1.head ≤ p.head := by
  induction codes generalizing p with
  | nil => exact Nat.le_refl _
  | cons code codes ih =>
    unfold write
    split
    · exact Nat.le_refl _
    · exact Nat.le_trans (ih _) (Nat.sub_le _ _)

theorem head_dropBlank_le (h : p.head ≤ 20) : p.dropBlank.head ≤ 20 := by
  unfold dropBlank
  split
  · rename_i hblank
    exact hblank.1
  · exact h

theorem head_printNumeric_le (h : p.head ≤ 20) (r : Register) : (p.printNumeric r).1.head ≤ 20 :=
  Nat.le_trans (head_write_le _ _) (head_dropBlank_le h)

theorem head_printAlpha_le (h : p.head ≤ 20) (r : Register) : (p.printAlpha r).1.head ≤ 20 :=
  Nat.le_trans (head_write_le _ _) h

end Printer

namespace Processor

variable {cpu : Processor}

/-- There is a printer if the model has one, and its head does not leave the line by more than one
place. -/
structure PrinterFit (cpu : Processor) : Prop where
  isSome : cpu.hardware.peripheral = .printer → cpu.printer.isSome
  head : ∀ printer ∈ cpu.printer, printer.head ≤ 20

theorem printerFit_dependsOn : DependsOn PrinterFit [.model, .printer] := by
  intro cpu cpu' hagree h
  have hmodel : cpu'.model = cpu.model := hagree .model (by simp)
  have hprinter : cpu'.printer = cpu.printer := hagree .printer (by simp)
  constructor
  · rw [hardware, hmodel, hprinter]
    exact h.isSome
  · rw [hprinter]
    exact h.head

theorem printerFit_with_printer (cpu : Processor) (printer : Printer) (hhead : printer.head ≤ 20) :
    ({ cpu with printer := some printer } : Processor).PrinterFit := by
  refine ⟨fun _ => rfl, ?_⟩
  intro printer' hprinter
  cases hprinter
  exact hhead

/-- Writing moves the head to the left, and printing the line brings it back. -/
theorem PrinterFit.runPrinter (h : cpu.PrinterFit) (x : PrinterOp) :
    (cpu.runPrinter x).cpu.PrinterFit := by
  have htake : ∀ result : Printer × Bool, result.1.head ≤ 20 →
      (cpu.takePrinter result).cpu.PrinterFit := by
    intro result hhead
    simp only [takePrinter]
    split <;> exact cpu.printerFit_with_printer _ hhead
  unfold Processor.runPrinter
  split
  · rename_i printer hprinter
    have hold := h.head printer hprinter
    have hflush := cpu.printerFit_with_printer _ (Printer.head_flush_le hold)
    cases x with
    | printLine => exact ⟨hflush.isSome, hflush.head⟩
    | printLineAndPoll =>
      simp only [runPrinterWith, Outcome.done]
      split
      · exact ⟨hflush.isSome, hflush.head⟩
      · exact hflush
    | numeric => exact htake _ (Printer.head_printNumeric_le hold _)
    | alpha => exact htake _ (Printer.head_printAlpha_le hold _)
  · exact h

/-- A reset empties the line. -/
theorem PrinterFit.reset (h : cpu.PrinterFit) : cpu.reset.PrinterFit := by
  refine ⟨?_, ?_⟩
  · intro hprinting
    obtain ⟨printer, hprinter⟩ := Option.isSome_iff_exists.mp (h.isSome hprinting)
    simp [Processor.reset, hprinter]
  · intro printer hprinter
    obtain ⟨_, -, rfl⟩ := Option.map_eq_some_iff.mp hprinter
    exact Nat.le_refl 20

/-- The host sets the print mode and takes the printed lines without moving the head. -/
theorem printerFit_invariant (allowed : Processor → Act → Prop) : Invariant allowed PrinterFit := by
  refine .of_dependsOn printerFit_dependsOn (by simp) (by simp) ?_ ?_ PrinterFit.reset ?_
  · intro cpu word i _ _ _ htouch h
    cases i with
    | printer x => exact h.runPrinter x
    | nop => simp at htouch
    | arithmetic x _ | move x | digit x | status x | pointer x | flow x | data x | control x
    | card x => cases x <;> simp [RegisterName.all] at htouch
  · intro cpu a _ htouch h
    cases a with
    | setPrintMode mode =>
      refine ⟨fun hprinting => ?_, fun printer hprinter => ?_⟩
      · simpa [perform, setPrintMode] using h.isSome hprinting
      · obtain ⟨old, hold, rfl⟩ := Option.map_eq_some_iff.mp hprinter
        exact h.head old hold
    | takePrinted =>
      simp only [perform, takePrinted]
      split
      · rename_i printer hprinter
        exact cpu.printerFit_with_printer _ (h.head printer hprinter)
      · exact h
    | arithmetic op s => cases op <;> simp [Act.footprint] at htouch
    | _ => simp [Act.footprint] at htouch
  · exact fun v _ htouch _ => absurd htouch (Slot.component_not_mem (by simp [Component.unsaved]) _)

theorem printerFit_new (model : Model) (rom : Rom) : (new model rom).PrinterFit := by
  refine PrinterFit.reset ⟨fun hprinting => ?_, ?_⟩
  · exact congrArg Option.isSome (if_pos hprinting)
  · intro printer hprinter
    obtain ⟨-, rfl⟩ : _ ∧ Printer.new = printer := by simpa using hprinter
    exact Nat.le_refl 20

/-! ## 6. All of it -/

/-- What a processor may rely on at any time. -/
structure WellFormed (cpu : Processor) : Prop where
  /-- Digits have four bits. -/
  register_le : ∀ r i, (cpu.register r).digit i ≤ 15
  cell_le : ∀ x ∈ cpu.memory, ∀ i, x.digit i ≤ 15
  f_le : cpu.f ≤ 15
  g_le : cpu.g.1 ≤ 15 ∧ cpu.g.2 ≤ 15
  radix : cpu.base.radix = 10 ∨ cpu.base.radix = 16
  next_lt : cpu.stack.next < 4
  /-- The status bits that the part does not have are clear. -/
  bit_eq_false : ∀ i, cpu.hardware.statusBits ≤ i → cpu.bit i = false
  /-- Only a Nut has a second pointer. -/
  onePointer : cpu.hardware.family ≠ .nut → cpu.q = 0 ∧ cpu.active = .p
  /-- A Nut has no selects to wait for a jump. -/
  romNumber_eq_zero : cpu.hardware.family = .nut → cpu.romNumber = 0
  memory_size : cpu.memory.size = cpu.hardware.memorySize
  ready : cpu.model = .hp67 → ∃ reader, cpu.card = some reader ∧ -4 ≤ reader.ready ∧
    reader.ready ≤ 0
  head_le : cpu.model = .hp10 → ∃ printer, cpu.printer = some printer ∧ printer.head ≤ 20

/-- **A processor is well-formed all the time**, whatever happens to it. -/
theorem wellFormed_of_reaches {model : Model} {rom : Rom} {allowed : Processor → Act → Prop}
    (hrom : rom.TenBit) (h : Reaches allowed (new model rom) cpu) :
    cpu.model = model ∧ cpu.WellFormed := by
  have hdigits := digitsFit_of_reaches hrom h
  have hstack : cpu.StackFit :=
    (stackFit_invariant allowed).of_reaches hrom (by decide : 0 < 4) h
  have hstatus : cpu.StatusFit :=
    (statusFit_invariant allowed).of_reaches hrom (statusFit_reset _) h
  have hone : cpu.OnePointer :=
    (onePointer_invariant allowed).of_reaches hrom (onePointer_new model rom) h
  have hselect : cpu.SelectFit :=
    (selectFit_invariant allowed).of_reaches hrom (selectFit_new model rom) h
  have hcard : cpu.CardFit :=
    (cardFit_invariant allowed).of_reaches hrom (cardFit_new model rom) h
  have hprinter : cpu.PrinterFit :=
    (printerFit_invariant allowed).of_reaches hrom (printerFit_new model rom) h
  obtain ⟨hmodel, -⟩ := h.model_rom
  refine ⟨hmodel,
    { register_le := fun r i => Nat.le_of_lt_succ (hdigits.register r i)
      cell_le := fun x hx i => Nat.le_of_lt_succ (hdigits.cell x hx i)
      f_le := Nat.le_of_lt_succ hdigits.f_lt
      g_le := hdigits.g_lt.imp Nat.le_of_lt_succ Nat.le_of_lt_succ
      radix := ?_
      next_lt := hstack
      bit_eq_false := hstatus
      onePointer := fun hother => (hone hother).symm
      romNumber_eq_zero := hselect
      memory_size := hdigits.size
      ready := ?_
      head_le := ?_ }⟩
  · cases cpu.base
    · exact .inl rfl
    · exact .inr rfl
  · intro hhp67
    have hperipheral : cpu.hardware.peripheral = .cardReader := by
      rw [hardware, hhp67]
      rfl
    obtain ⟨reader, hreader⟩ := Option.isSome_iff_exists.mp (hcard.isSome hperipheral)
    exact ⟨reader, hreader, hcard.ready reader hreader⟩
  · intro hhp10
    have hperipheral : cpu.hardware.peripheral = .printer := by
      rw [hardware, hhp10]
      rfl
    obtain ⟨printer, hsome⟩ := Option.isSome_iff_exists.mp (hprinter.isSome hperipheral)
    exact ⟨printer, hsome, hprinter.head printer hsome⟩

/-- A card reader that has begun to skip its clears. -/
theorem wellFormed_of_reaches_hp67 :
    let cpu := (new .hp67 ⟨#[0o1260]⟩).perform .tick
    cpu.WellFormed ∧ cpu.card.map CardReader.ready = some (-3) := by
  have hrom : Rom.TenBit ⟨#[0o1260]⟩ := by simp [Rom.TenBit]
  have hreach : Reaches (fun _ _ => True) (new .hp67 ⟨#[0o1260]⟩)
      ((new .hp67 ⟨#[0o1260]⟩).perform .tick) := .act .tick .start trivial
  exact ⟨(wellFormed_of_reaches hrom hreach).2, rfl⟩

end Processor

end Calculator

/-
# The round trip of a record

A record that a running calculator has saved can be restored in full: every number in it is one that
its slot can hold (`value_le_limit`), so nothing is masked or pulled back on the way in.
`Canonical` is the format of a model, said without the writer and the reader, and
`record_round_trip` the main statement, in both directions.
-/
import Calculator.Proofs.Digits
import Calculator.Proofs.Image
import Calculator.Proofs.Pointers
import Calculator.Proofs.Restore

namespace Calculator

/-! ## 1. The format of a model -/

namespace Slot

/-- The largest number that a slot can hold. -/
def limit : Slot → Nat
  | flag _ | status _ => 1
  | p | q => 13
  | digit _ _ | f | gLow | gHigh | cell _ _ => 15

theorem limit_lt (slot : Slot) : slot.limit < 0x100 := by
  cases slot <;> simp [limit]

/-- What a slot can hold is stored as it is. -/
theorem stored_of_le {slot : Slot} {v : Nat} (h : v ≤ slot.limit) : slot.stored v = v := by
  have hbit : v ≤ 1 → (decide (v ≠ 0)).toNat = v := by
    intro hv
    rcases Nat.le_one_iff_eq_zero_or_eq_one.mp hv with rfl | rfl <;> rfl
  have hpointer : v ≤ 13 → min (v % 0x10) 13 = v := by omega
  have hdigit : v ≤ 15 → v % 0x10 = v := by omega
  cases slot with
  | flag _ | status _ => exact hbit h
  | p | q => exact hpointer h
  | digit _ _ | f | gLow | gHigh | cell _ _ => exact hdigit h

theorem clampWarning?_of_le (pc : Address) {slot : Slot} {v : Nat} (h : v ≤ slot.limit) :
    Record.clampWarning? pc v slot = none := by
  have hpointer : v ≤ 13 → ¬13 < v % 0x10 := by omega
  cases slot with
  | p | q => exact if_neg (hpointer h)
  | _ => rfl

end Slot

namespace Record

/-- The largest numbers that a record of the hardware can hold, line by line: on a Nut six flags,
the status bits, eight registers and a line of the pointers, f and g, and then the data registers. -/
def bounds (hw : Hardware) : List (List Nat) :=
  if hw.continuous then
    (if hw.family = .nut then
        [List.replicate 6 1, List.replicate 14 1] ++ List.replicate 8 (List.replicate 14 15)
          ++ [[13, 13, 15, 15, 15]]
      else [])
      ++ List.replicate hw.memorySize (List.replicate 14 15)
  else []

/-- The bytes are in the format of the hardware: the fixed lines, each with its fixed number of
fields, and no field above its bound. -/
def Canonical (hw : Hardware) (bytes : List UInt8) : Prop :=
  ∃ lines, List.Forall₂ (List.Forall₂ (· ≤ ·)) lines (bounds hw) ∧ bytes = recordBytes lines

/-- The bounds are those of the slots. -/
theorem bounds_eq (model : Model) :
    bounds model.hardware = (Slot.layout model.hardware).map (·.map Slot.limit) := by
  have hbits : model.hardware.family = .nut → model.hardware.statusBits = 14 := by
    cases model <;> decide
  have hmemory : ∀ n, (Slot.memoryLines n).map (·.map Slot.limit)
      = List.replicate n (List.replicate 14 15) := by
    intro n
    unfold Slot.memoryLines
    have hconst : (List.range n).map (fun _ => List.replicate 14 15)
        = List.replicate n (List.replicate 14 15) := by
      rw [List.map_const', List.length_range]
    rw [List.map_map]
    exact hconst
  unfold bounds Slot.layout
  split
  · rw [List.map_append, hmemory]
    split
    · rw [hbits ‹_›]
      rfl
    · rfl
  · rfl

/-! ## 2. Reading the format -/

/-- The numbers of fields that can all be read are the longest prefix. -/
theorem LongestPrefix.eq {fields : List (List UInt8)} {limit : Nat} {vs ws : List Nat}
    (h : LongestPrefix fields limit vs) (hreads : List.Forall₂ ReadsAs fields ws)
    (hle : ws.length ≤ limit) : vs = ws := by
  have hunique : Relator.RightUnique ReadsAs := fun _ _ _ => ReadsAs.unique
  have hlength : vs.length = fields.length :=
    h.length_eq (hreads.length_eq ▸ hle) fun _ => exists_of_forall₂ hreads
  have hvs := h.reads
  rw [hlength, List.take_length] at hvs
  exact List.right_unique_forall₂' hunique hvs hreads

theorem hardware_read (cpu : Processor) (bytes : List UInt8) :
    (read cpu bytes).cpu.hardware = cpu.hardware :=
  congrArg Model.hardware (cpu.perform_agrees (.restore bytes) (.inl rfl))

variable {target : Processor} {lines : List (List Nat)}

theorem flatten_le_limit {layout : List (List Slot)}
    (h : List.Forall₂ (List.Forall₂ (· ≤ ·)) lines (layout.map (·.map Slot.limit))) :
    List.Forall₂ (fun v (slot : Slot) => v ≤ slot.limit) lines.flatten layout.flatten := by
  have hflatten := List.rel_flatten h
  rwa [← List.map_flatten, List.forall₂_map_right_iff] at hflatten

/-- Numbers within the limits have two digits. -/
theorem lt_of_le_limit {layout : List (List Slot)}
    (h : List.Forall₂ (List.Forall₂ (· ≤ ·)) lines (layout.map (·.map Slot.limit))) :
    ∀ v ∈ lines.flatten, v < 0x100 := by
  intro v hv
  obtain ⟨slot, hle⟩ := exists_of_forall₂ (flatten_le_limit h) hv
  exact Nat.lt_of_le_of_lt hle slot.limit_lt

/-- **A record in the format is restored in full**, and the slots then hold its numbers. -/
theorem read_recordBytes (hsize : target.memory.size = target.hardware.memorySize)
    (h : List.Forall₂ (List.Forall₂ (· ≤ ·)) lines
      ((Slot.layout target.hardware).map (·.map Slot.limit))) :
    (read target (recordBytes lines)).count = (Slot.layout target.hardware).flatten.length ∧
      (read target (recordBytes lines)).events = [] ∧
      numbers (read target (recordBytes lines)).cpu = lines := by
  obtain ⟨hlength, hzip⟩ := List.forall₂_iff_zip.mp (flatten_le_limit h).flip
  have hreads : List.Forall₂ ReadsAs (fields (recordBytes lines)) lines.flatten :=
    readsAs_recordBytes (fun _ hb => absurd hb List.not_mem_nil) (lt_of_le_limit h)
  obtain ⟨vs, hprefix, hread⟩ := readSlots_eq target (recordBytes lines)
    (Slot.layout target.hardware).flatten
  obtain rfl : vs = lines.flatten := hprefix.eq hreads (Nat.le_of_eq hlength.symm)
  have hset := (value_restored hsize hprefix.le).1
  unfold numbers
  rw [hardware_read]
  unfold read
  rw [hread]
  refine ⟨hlength.symm, ?_, ?_⟩
  · refine List.filterMap_eq_nil_iff.mpr ?_
    rintro ⟨slot, v⟩ hmem
    exact Slot.clampWarning?_of_le _ (hzip hmem)
  · refine List.eq_iff_flatten_eq.mpr ⟨?_, ?_⟩
    · rw [← List.map_flatten, ← List.forall₂_eq_eq_eq, List.forall₂_map_left_iff]
      refine List.forall₂_iff_zip.mpr ⟨hlength, fun {slot v} hmem => ?_⟩
      exact (hset slot v hmem).trans (Slot.stored_of_le (hzip hmem))
    · rw [List.map_map, ← List.forall₂_eq_eq_eq, List.forall₂_map_left_iff,
        List.forall₂_map_right_iff]
      refine (List.forall₂_map_right_iff.mp h).flip.imp ?_
      intro line vs hline
      exact (List.length_map _).trans (hline.length_eq.trans (List.length_map _)).symm

end Record

/-! ## 3. What a record saves -/

namespace Slot

/-- Continuous memory saves every data register. -/
theorem cell_mem_layout {hw : Hardware} (hcontinuous : hw.continuous = true) {k i : Nat}
    (hk : k < hw.memorySize) (hi : i < 14) : cell k i ∈ (layout hw).flatten := by
  have hline : positions.map (cell k) ∈ layout hw := by
    unfold layout
    rw [if_pos hcontinuous]
    exact List.mem_append_right _ (List.mem_map_of_mem (List.mem_range.mpr hk))
  have hposition : i ∈ positions := List.mem_reverse.mpr (List.mem_range.mpr hi)
  exact List.mem_flatten_of_mem hline (List.mem_map_of_mem hposition)

/-- A Nut saves its flags, status bits, registers, pointers and digits as well. -/
theorem mem_layout_of_nut {hw : Hardware} (hcontinuous : hw.continuous = true)
    (hnut : hw.family = .nut) {slot : Slot}
    (h : match slot with
      | status bit => bit < hw.statusBits
      | digit _ i => i < 14
      | cell _ _ => False
      | _ => True) : slot ∈ (layout hw).flatten := by
  have hlines : (processorLines hw.statusBits).flatten ⊆ (layout hw).flatten := by
    unfold layout
    rw [if_pos hcontinuous, if_pos hnut, List.flatten_append]
    exact List.subset_append_left _ _
  refine hlines ?_
  cases slot with
  | flag x => cases x <;> simp [processorLines, Flag.all]
  | status bit => simpa [processorLines] using h
  | digit r i => cases r <;> simpa [processorLines, RegisterName.all, positions] using h
  | cell k i => exact h.elim
  | p | q | f | gLow | gHigh => simp [processorLines]

end Slot

namespace Record

/-- Two processors agree on everything that is saved: on the data registers, and if they are Nuts on
the flags, the status bits, the registers, the pointers, f and both halves of g. -/
structure SameSaved (saved restored : Processor) : Prop where
  memory : restored.memory = saved.memory
  flags : saved.hardware.family = .nut → restored.flags = saved.flags
  status : saved.hardware.family = .nut → ∀ bit < 14, restored.bit bit = saved.bit bit
  register : saved.hardware.family = .nut → ∀ r, restored.register r = saved.register r
  pointers : saved.hardware.family = .nut → restored.p = saved.p ∧ restored.q = saved.q
  digits : saved.hardware.family = .nut → restored.f = saved.f ∧ restored.g = saved.g

/-- Processors agree on what is saved if all their slots have the same values. -/
theorem sameSaved_of_values {saved restored : Processor}
    (hcontinuous : saved.hardware.continuous = true)
    (hsize : saved.memory.size = saved.hardware.memorySize)
    (hsize' : restored.memory.size = saved.hardware.memorySize)
    (h : ∀ slot ∈ (Slot.layout saved.hardware).flatten, slot.value restored = slot.value saved) :
    SameSaved saved restored := by
  have hnut : saved.hardware.family = .nut → saved.hardware.statusBits = 14 := by
    unfold Processor.hardware
    cases saved.model <;> decide
  have hmem := @Slot.mem_layout_of_nut saved.hardware hcontinuous
  refine ⟨?_, fun hn => ?_, fun hn bit hbit => ?_, fun hn r => ?_, fun hn => ?_, fun hn => ?_⟩
  · refine Array.ext (hsize'.trans hsize.symm) fun k hk hk' => Register.ext_digit fun i hi => ?_
    have hcell : (restored.memory.getD k .zero).digit i = (saved.memory.getD k .zero).digit i :=
      h (.cell k i) (Slot.cell_mem_layout hcontinuous (hsize ▸ hk') hi)
    rwa [Array.getD_eq_getD_getElem?, Array.getD_eq_getD_getElem?, Array.getElem?_eq_getElem hk,
      Array.getElem?_eq_getElem hk'] at hcell
  · exact Flags.ext_get fun x => toNat_injective (h (.flag x) (hmem hn trivial))
  · exact toNat_injective (h (.status bit) (hmem hn ((hnut hn).symm ▸ hbit)))
  · exact Register.ext_digit fun i hi => h (.digit r i) (hmem hn hi)
  · exact ⟨h .p (hmem hn trivial), h .q (hmem hn trivial)⟩
  · refine ⟨h .f (hmem hn trivial), Prod.ext ?_ ?_⟩
    · exact h .gLow (hmem hn trivial)
    · exact h .gHigh (hmem hn trivial)

/-! ## 4. Saved processors -/

/-- The values of a processor that fits are within the bounds of its slots. -/
theorem value_le_limit {cpu : Processor} (hdigits : cpu.DigitsFit) (hpointers : cpu.PointersFit)
    {slot : Slot} (h : slot ∈ (Slot.layout cpu.hardware).flatten) :
    slot.value cpu ≤ slot.limit := by
  -- only a Nut saves more than data registers
  have hnut : (∀ k i, slot ≠ .cell k i) → cpu.hardware.family = .nut := by
    intro hcell
    rcases Slot.mem_layout h with ⟨hnut, -⟩ | ⟨k, i, -, -, heq⟩
    · exact hnut
    · exact absurd heq (hcell k i)
  cases slot with
  | flag x => exact Bool.toNat_le _
  | status bit => exact Bool.toNat_le _
  | digit r i => exact Nat.le_of_lt_succ (hdigits.register r i)
  | cell k i => exact Nat.le_of_lt_succ (hdigits.cell_getD k i)
  | f => exact Nat.le_of_lt_succ hdigits.f_lt
  | gLow => exact Nat.le_of_lt_succ hdigits.g_lt.1
  | gHigh => exact Nat.le_of_lt_succ hdigits.g_lt.2
  | p => exact Nat.le_of_lt_succ (hpointers (hnut nofun)).1
  | q => exact Nat.le_of_lt_succ (hpointers (hnut nofun)).2

theorem numbers_le_bounds {cpu : Processor} (hdigits : cpu.DigitsFit)
    (hpointers : cpu.PointersFit) :
    List.Forall₂ (List.Forall₂ (· ≤ ·)) (numbers cpu)
      ((Slot.layout cpu.hardware).map (·.map Slot.limit)) := by
  unfold numbers
  rw [List.forall₂_map_left_iff, List.forall₂_map_right_iff, List.forall₂_same]
  intro line hline
  rw [List.forall₂_map_left_iff, List.forall₂_map_right_iff, List.forall₂_same]
  intro slot hslot
  exact value_le_limit hdigits hpointers (List.mem_flatten_of_mem hline hslot)

/-- A processor that fits writes a record in the format. -/
theorem bytes_write_of_fit {cpu : Processor} (hdigits : cpu.DigitsFit)
    (hpointers : cpu.PointersFit) : Text.bytes (write cpu) = recordBytes (numbers cpu) :=
  bytes_write (lt_of_le_limit (numbers_le_bounds hdigits hpointers))

/-- **What a processor has saved, any processor of its model takes over.** -/
theorem read_write {saved target : Processor} (hdigits : saved.DigitsFit)
    (hpointers : saved.PointersFit) (hcontinuous : saved.hardware.continuous = true)
    (hmodel : target.model = saved.model)
    (hsize : target.memory.size = saved.hardware.memorySize) :
    (read target (Text.bytes (write saved))).count
        = (Slot.layout saved.hardware).flatten.length ∧
      (read target (Text.bytes (write saved))).events = [] ∧
      SameSaved saved (read target (Text.bytes (write saved))).cpu ∧
      write (read target (Text.bytes (write saved))).cpu = write saved := by
  have hhardware : target.hardware = saved.hardware := congrArg Model.hardware hmodel
  have hbounds := numbers_le_bounds hdigits hpointers
  rw [← hhardware] at hbounds hsize
  obtain ⟨hcount, hevents, hnumbers⟩ := read_recordBytes hsize hbounds
  rw [← bytes_write_of_fit hdigits hpointers] at hcount hevents hnumbers
  refine ⟨hhardware ▸ hcount, hevents, ?_, ?_⟩
  · refine sameSaved_of_values hcontinuous hdigits.size ?_ ?_
    · exact (size_read target _).trans (hsize.trans (congrArg _ hhardware))
    · have hvalues := congrArg List.flatten hnumbers
      rw [flatten_numbers, flatten_numbers, hardware_read, hhardware] at hvalues
      exact List.map_inj_left.mp hvalues
  · rw [write_eq_numbers, hnumbers, ← write_eq_numbers]

/-- The processor of a new emulator has a history from power on. -/
theorem reaches_of_ofListing {model : Model} {listing : List UInt8} {record : Option (List UInt8)}
    {e : Emulator} {events : List Event}
    (h : Emulator.ofListing model listing record = .ok (e, events)) :
    Reaches (fun _ _ => True) (Processor.new model (Rom.load model listing).rom) e.cpu := by
  unfold Emulator.ofListing at h
  dsimp only at h
  split at h
  · cases h
  · obtain ⟨rfl, -⟩ := Prod.mk.inj (Except.ok.inj h)
    cases record with
    | none => exact .start
    | some bytes => exact .act (.restore bytes) .start trivial

/-- A processor that an emulator for a listing comes to fits. -/
theorem fits_of_ofListing {model : Model} {listing : List UInt8} {record : Option (List UInt8)}
    {e : Emulator} {events : List Event} {cpu : Processor}
    (h : Emulator.ofListing model listing record = .ok (e, events))
    (hreaches : Reaches (fun _ _ => True) e.cpu cpu) :
    cpu.model = model ∧ cpu.DigitsFit ∧ cpu.PointersFit := by
  have hall := (reaches_of_ofListing h).trans hreaches
  have hrom := Rom.tenBit_load model listing
  exact ⟨hall.model_rom.1, Processor.digitsFit_of_reaches hrom hall,
    Processor.pointersFit_of_reaches hrom hall⟩

/-- **Saving and restoring are inverse to each other.**  With continuous memory, whatever an
emulator has been through, its record is in the format, and any processor of the model restores all
of it without a warning, agrees with the saved one on everything that is saved, and saves the same
text again.  And a record in the format, once it has been restored, is saved byte for byte. -/
theorem record_round_trip (model : Model) (hcontinuous : model.hardware.continuous = true) :
    (∀ listing record e events, Emulator.ofListing model listing record = .ok (e, events) →
      ∀ saved, Reaches (fun _ _ => True) e.cpu saved →
        save? saved = some (write saved) ∧
        Canonical model.hardware (Text.bytes (write saved)) ∧
        ∀ target : Processor, target.model = model →
          target.memory.size = model.hardware.memorySize →
          (read target (Text.bytes (write saved))).count
              = (bounds model.hardware).flatten.length ∧
            (read target (Text.bytes (write saved))).events = [] ∧
            SameSaved saved (read target (Text.bytes (write saved))).cpu ∧
            write (read target (Text.bytes (write saved))).cpu = write saved) ∧
    ∀ bytes, Canonical model.hardware bytes → ∀ target : Processor, target.model = model →
      target.memory.size = model.hardware.memorySize →
      Text.bytes (write (read target bytes).cpu) = bytes := by
  constructor
  · intro listing record e events hlisting saved hreaches
    obtain ⟨rfl, hdigits, hpointers⟩ := fits_of_ofListing hlisting hreaches
    have hformat : Canonical saved.hardware (Text.bytes (write saved)) := by
      refine ⟨numbers saved, ?_, bytes_write_of_fit hdigits hpointers⟩
      exact bounds_eq saved.model ▸ numbers_le_bounds hdigits hpointers
    have hlength : (bounds saved.hardware).flatten.length
        = (Slot.layout saved.hardware).flatten.length := by
      rw [Processor.hardware, bounds_eq, ← List.map_flatten, List.length_map]
    refine ⟨if_pos hcontinuous, hformat, fun target hmodel hsize => ?_⟩
    obtain ⟨hcount, hrest⟩ := read_write hdigits hpointers hcontinuous hmodel hsize
    exact ⟨hcount.trans hlength.symm, hrest⟩
  · rintro bytes ⟨lines, hlines, rfl⟩ target rfl hsize
    rw [bounds_eq] at hlines
    obtain ⟨-, -, hnumbers⟩ := read_recordBytes hsize hlines
    have hlt : ∀ v ∈ (numbers (read target (recordBytes lines)).cpu).flatten, v < 0x100 := by
      rw [hnumbers]
      exact lt_of_le_limit hlines
    rw [bytes_write hlt, hnumbers]

/-- The fullest record of a Nut, and what a fresh one saves after a tick. -/
theorem record_round_trip_hp12c :
    let cpu := Processor.new .hp12c (.blank 0x1000)
    Model.hp12c.hardware.continuous = true ∧
      Text.bytes (write (read cpu (recordBytes (bounds Model.hp12c.hardware))).cpu)
        = recordBytes (bounds Model.hp12c.hardware) ∧
      write (read cpu (Text.bytes (write (cpu.perform .tick)))).cpu
        = write (cpu.perform .tick) := by
  intro cpu
  have hsize : cpu.memory.size = Model.hp12c.hardware.memorySize :=
    (Processor.digitsFit_new .hp12c _).size
  have hfull : Canonical Model.hp12c.hardware (recordBytes (bounds Model.hp12c.hardware)) :=
    ⟨_, List.forall₂_same.mpr fun _ _ => List.forall₂_same.mpr fun _ _ => Nat.le_refl _, rfl⟩
  obtain ⟨hsave, hrestore⟩ := record_round_trip .hp12c rfl
  have hlisting : Emulator.ofListing .hp12c [] none = .ok (⟨cpu, 0⟩, []) := rfl
  have htick : Reaches (fun _ _ => True) cpu (cpu.perform .tick) := .act .tick .start trivial
  obtain ⟨-, -, htarget⟩ := hsave [] none _ _ hlisting _ htick
  exact ⟨rfl, hrestore _ hfull cpu rfl hsize, (htarget cpu rfl hsize).2.2.2⟩

end Record

end Calculator

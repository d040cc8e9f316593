/-
# Restoring a record

Whatever the bytes are, restoring them applies the longest run of readable fields that they begin
with (`LongestPrefix`), one field to a slot, and nothing else: `readSlots_eq` says it of the reader,
and the main statement `read_longest_readable` of the processor that comes out.
-/
import Calculator.Proofs.RecordSlots
import Calculator.Proofs.RecordText

namespace Calculator

namespace Record

open Processor (ChangesOnly)

/-! ## 1. The readable fields -/

/-- The numbers are what the first fields stand for, as many as there can be: no more than `limit`,
and fewer only where the next field is missing or stands for nothing. -/
structure LongestPrefix (fields : List (List UInt8)) (limit : Nat) (vs : List Nat) : Prop where
  reads : List.Forall₂ ReadsAs (fields.take vs.length) vs
  le : vs.length ≤ limit
  longest : vs.length = limit ∨ ∀ field, fields[vs.length]? = some field → ¬∃ v, ReadsAs field v

theorem longestPrefix_nil {fields : List (List UInt8)} {limit : Nat}
    (h : limit = 0 ∨ ∀ field, fields[0]? = some field → ¬∃ v, ReadsAs field v) :
    LongestPrefix fields limit [] :=
  ⟨.nil, Nat.zero_le _, h.imp Eq.symm id⟩

theorem LongestPrefix.cons {field : List UInt8} {fields : List (List UInt8)} {limit v : Nat}
    {vs : List Nat} (hv : ReadsAs field v) (h : LongestPrefix fields limit vs) :
    LongestPrefix (field :: fields) (limit + 1) (v :: vs) where
  reads := .cons hv h.reads
  le := Nat.succ_le_succ h.le
  longest := h.longest.imp (congrArg (· + 1)) id

/-- There are no more numbers than fields. -/
theorem LongestPrefix.length_le {fields : List (List UInt8)} {limit : Nat} {vs : List Nat}
    (h : LongestPrefix fields limit vs) : vs.length ≤ fields.length := by
  have hlength := h.reads.length_eq
  rw [List.length_take] at hlength
  omega

/-- If every field can be read, they all are, up to the limit. -/
theorem LongestPrefix.length_eq {fields : List (List UInt8)} {limit : Nat} {vs : List Nat}
    (h : LongestPrefix fields limit vs) (hle : fields.length ≤ limit)
    (hreads : ∀ field ∈ fields, ∃ v, ReadsAs field v) : vs.length = fields.length := by
  have hvs := h.length_le
  rcases h.longest with heq | hstop
  · omega
  · refine Nat.le_antisymm hvs (Nat.not_lt.mp fun hlt => ?_)
    have hget : fields[vs.length]? = some fields[vs.length] := List.getElem?_eq_getElem hlt
    exact hstop _ hget (hreads _ (List.getElem_mem hlt))

/-! ## 2. The reader -/

/-- What restoring a number into a slot tells the host: that a pointer was past the register. -/
def clampWarning? (pc : Address) (v : Nat) : Slot → Option Event
  | .p | .q => if 13 < v % 0x10 then some (.warned (.pointerClamped pc (v % 0x10))) else none
  | _ => none

theorem events_eq (cpu : Processor) (v : Nat) (slot : Slot) :
    slot.events cpu v = (clampWarning? cpu.pc v slot).toList := by
  have hpointer : (if v % 0x10 < 14 then [] else [Event.warned (.pointerClamped cpu.pc (v % 0x10))])
      = (if 13 < v % 0x10 then some (Event.warned (.pointerClamped cpu.pc (v % 0x10)))
          else none).toList := by
    by_cases h : v % 0x10 < 14
    · rw [if_pos h, if_neg (by omega)]
      rfl
    · rw [if_neg h, if_pos (by omega)]
      rfl
  cases slot with
  | p | q => exact hpointer
  | _ => rfl

/-- The warnings of a restored run of slots. -/
def clampWarnings (pc : Address) (pairs : List (Slot × Nat)) : List Event :=
  pairs.filterMap fun pair => clampWarning? pc pair.2 pair.1

theorem assign_pc (slot : Slot) (cpu : Processor) (v : Nat) : (slot.assign cpu v).pc = cpu.pc := by
  refine slot.assign_changesOnly cpu v .pc ?_
  cases slot with
  | flag x => cases x <;> decide
  | _ => simp [Slot.component]

/-- **The reader applies the longest run of readable fields.** -/
theorem readSlots_eq (cpu : Processor) (bytes : List UInt8) (slots : List Slot) :
    ∃ vs, LongestPrefix (fields bytes) slots.length vs ∧
      readSlots cpu bytes slots =
        ⟨assignAll cpu (slots.zip vs), clampWarnings cpu.pc (slots.zip vs), vs.length⟩ := by
  induction slots generalizing cpu bytes with
  | nil => exact ⟨[], longestPrefix_nil (.inl rfl), rfl⟩
  | cons slot slots ih =>
    unfold readSlots
    by_cases hcomma : comma ∈ bytes
    · obtain ⟨field, rest, rfl, hfield⟩ := List.eq_append_cons_of_mem hcomma
      rw [fields_append hfield, next?_field hfield]
      cases hvalue : fieldValue? field with
      | none =>
        refine ⟨[], longestPrefix_nil (.inr ?_), rfl⟩
        rintro field' hfield' ⟨v, hv⟩
        obtain rfl := Option.some.inj hfield'
        rw [fieldValue?_eq_some.mpr hv] at hvalue
        cases hvalue
      | some v =>
        obtain ⟨vs, hprefix, hread⟩ := ih (slot.assign cpu v) rest
        refine ⟨v :: vs, .cons (fieldValue?_eq_some.mp hvalue) hprefix, ?_⟩
        have hevents : slot.events cpu v ++ clampWarnings cpu.pc (slots.zip vs)
            = clampWarnings cpu.pc ((slot, v) :: slots.zip vs) := by
          rw [events_eq]
          unfold clampWarnings
          rw [List.filterMap_cons]
          cases clampWarning? cpu.pc v slot <;> rfl
        simp only [Option.map_some, hread, assign_pc, hevents]
        rfl
    · rw [fields_of_not_mem hcomma, next?_eq_none hcomma]
      refine ⟨[], longestPrefix_nil (.inr ?_), rfl⟩
      intro field hfield
      cases hfield

/-! ## 3. A whole record -/

theorem changesOnly_assignAll (cpu : Processor) (pairs : List (Slot × Nat)) :
    ChangesOnly ((pairs.map Prod.fst).map Slot.component) cpu (assignAll cpu pairs) := by
  induction pairs generalizing cpu with
  | nil => exact .refl _ cpu
  | cons pair pairs ih => exact (pair.1.assign_changesOnly cpu pair.2).append (ih _)

theorem size_assignAll (cpu : Processor) (pairs : List (Slot × Nat)) :
    (assignAll cpu pairs).memory.size = cpu.memory.size := by
  induction pairs generalizing cpu with
  | nil => rfl
  | cons pair pairs ih => exact (ih _).trans (pair.1.size_assign cpu pair.2)

theorem map_fst_zip_eq_take {slots : List Slot} {vs : List Nat} (h : vs.length ≤ slots.length) :
    (slots.zip vs).map Prod.fst = slots.take vs.length := by
  induction slots generalizing vs with
  | nil => cases vs <;> rfl
  | cons slot slots ih =>
    cases vs with
    | nil => rfl
    | cons v vs =>
      rw [List.zip_cons_cons, List.map_cons, List.length_cons, List.take_succ_cons,
        ih (Nat.le_of_succ_le_succ h)]

/-- The first slots of a record have their stored values after they are restored, and the later
ones keep theirs. -/
theorem value_restored {cpu : Processor} (hsize : cpu.memory.size = cpu.hardware.memorySize)
    {vs : List Nat} (hle : vs.length ≤ (Slot.layout cpu.hardware).flatten.length) :
    (∀ slot v, (slot, v) ∈ (Slot.layout cpu.hardware).flatten.zip vs →
      slot.value (assignAll cpu ((Slot.layout cpu.hardware).flatten.zip vs)) = slot.stored v) ∧
    ∀ slot, slot ∉ (Slot.layout cpu.hardware).flatten.take vs.length →
      slot.value (assignAll cpu ((Slot.layout cpu.hardware).flatten.zip vs)) = slot.value cpu := by
  have htake := map_fst_zip_eq_take hle
  have hnodup := (Slot.nodup_layout cpu.hardware).sublist (List.take_sublist vs.length _)
  have hvalid : ∀ slot ∈ (Slot.layout cpu.hardware).flatten.take vs.length, slot.Valid cpu :=
    fun _ hslot => Slot.valid_of_mem_layout hsize (List.mem_of_mem_take hslot)
  rw [← htake] at hnodup hvalid ⊢
  exact value_assignAll hnodup hvalid

/-- A slot that is not among the first ones of a record is not restored with them. -/
theorem not_mem_take_of_mem_drop {hw : Hardware} {n : Nat} {slot : Slot}
    (h : slot ∈ (Slot.layout hw).flatten.drop n) : slot ∉ (Slot.layout hw).flatten.take n := by
  have hnodup := Slot.nodup_layout hw
  rw [← List.take_append_drop n (Slot.layout hw).flatten, List.nodup_append] at hnodup
  exact fun htake => hnodup.2.2 slot htake slot h rfl

theorem toNat_injective : Function.Injective Bool.toNat := by
  intro b c h
  cases b <;> cases c <;> first | rfl | cases h

/-- The status bits that a part does not have are in no record. -/
theorem status_not_mem_layout {hw : Hardware} {bit : Nat} (h : hw.statusBits ≤ bit) :
    Slot.status bit ∉ (Slot.layout hw).flatten := by
  intro hmem
  rcases Slot.mem_layout hmem with ⟨-, hproc⟩ | ⟨k, i, -, -, heq⟩
  · have hlt := (Slot.mem_processorLines hproc).2.1 bit rfl
    omega
  · cases heq

theorem exists_of_forall₂ {α β : Type} {R : α → β → Prop} {xs : List α} {ys : List β}
    (h : List.Forall₂ R xs ys) {x : α} (hmem : x ∈ xs) : ∃ y, R x y := by
  induction h with
  | nil => cases hmem
  | cons hxy _ ih =>
    rcases List.mem_cons.mp hmem with rfl | hmem
    · exact ⟨_, hxy⟩
    · exact ih hmem

/-- A record that was cut off is read as far as it has commas. -/
theorem count_read_take {cpu saved : Processor} (hmodel : saved.model = cpu.model)
    (hvalues : ∀ slot ∈ (Slot.layout cpu.hardware).flatten, slot.value saved < 0x100) (n : Nat) :
    (read cpu ((Text.bytes (write saved)).take n)).count
      = ((Text.bytes (write saved)).take n).count comma := by
  have hhardware : saved.hardware = cpu.hardware := congrArg Model.hardware hmodel
  rw [← hhardware] at hvalues
  have hlt : ∀ v ∈ (numbers saved).flatten, v < 0x100 := by
    rw [flatten_numbers]
    exact List.forall_mem_map.mpr hvalues
  have hall : List.Forall₂ ReadsAs (fields (Text.bytes (write saved))) (numbers saved).flatten := by
    rw [bytes_write hlt]
    exact readsAs_recordBytes (fun _ hb => absurd hb List.not_mem_nil) hlt
  have hcut : fields ((Text.bytes (write saved)).take n) <+: fields (Text.bytes (write saved)) := by
    have h := fields_prefix ((Text.bytes (write saved)).take n) ((Text.bytes (write saved)).drop n)
    rwa [List.take_append_drop] at h
  have hle : (fields ((Text.bytes (write saved)).take n)).length
      ≤ (Slot.layout cpu.hardware).flatten.length := by
    calc (fields ((Text.bytes (write saved)).take n)).length
        ≤ (fields (Text.bytes (write saved))).length := hcut.length_le
      _ = (numbers saved).flatten.length := hall.length_eq
      _ = (Slot.layout cpu.hardware).flatten.length := by
        rw [flatten_numbers, List.length_map, hhardware]
  have hreads : ∀ field ∈ fields ((Text.bytes (write saved)).take n), ∃ v, ReadsAs field v :=
    fun field hfield => exists_of_forall₂ hall (hcut.subset hfield)
  obtain ⟨vs, hprefix, hread⟩ := readSlots_eq cpu ((Text.bytes (write saved)).take n)
    (Slot.layout cpu.hardware).flatten
  unfold read
  rw [hread, ← length_fields]
  exact hprefix.length_eq hle hreads

/-- **Restoring applies the longest readable prefix of the bytes and nothing else.**  A record that
was cut off is restored as far as it has commas. -/
theorem read_longest_readable (cpu : Processor)
    (hsize : cpu.memory.size = cpu.hardware.memorySize) (bytes : List UInt8) :
    (∃ vs, LongestPrefix (fields bytes) (Slot.layout cpu.hardware).flatten.length vs ∧
      (read cpu bytes).count = vs.length ∧
      (read cpu bytes).events
        = clampWarnings cpu.pc ((Slot.layout cpu.hardware).flatten.zip vs) ∧
      (∀ slot v, (slot, v) ∈ (Slot.layout cpu.hardware).flatten.zip vs →
        slot.value (read cpu bytes).cpu = slot.stored v) ∧
      (∀ slot ∈ (Slot.layout cpu.hardware).flatten.drop vs.length,
        slot.value (read cpu bytes).cpu = slot.value cpu) ∧
      ChangesOnly (((Slot.layout cpu.hardware).flatten.take vs.length).map Slot.component) cpu
        (read cpu bytes).cpu ∧
      (read cpu bytes).cpu.memory.size = cpu.memory.size ∧
      ∀ bit, cpu.hardware.statusBits ≤ bit → (read cpu bytes).cpu.bit bit = cpu.bit bit) ∧
    ∀ saved : Processor, saved.model = cpu.model →
      (∀ slot ∈ (Slot.layout cpu.hardware).flatten, slot.value saved < 0x100) →
      ∀ n, (read cpu ((Text.bytes (write saved)).take n)).count
        = ((Text.bytes (write saved)).take n).count comma := by
  refine ⟨?_, fun saved hmodel hvalues n => count_read_take hmodel hvalues n⟩
  obtain ⟨vs, hprefix, hread⟩ := readSlots_eq cpu bytes (Slot.layout cpu.hardware).flatten
  obtain ⟨hset, hkept⟩ := value_restored hsize hprefix.le
  refine ⟨vs, hprefix, ?_⟩
  unfold read
  rw [hread]
  refine ⟨rfl, rfl, hset, ?_, ?_, size_assignAll cpu _, ?_⟩
  · exact fun slot hslot => hkept slot (not_mem_take_of_mem_drop hslot)
  · rw [← map_fst_zip_eq_take hprefix.le]
    exact changesOnly_assignAll cpu _
  · intro bit hbit
    have hvalue := hkept (.status bit) fun htake =>
      status_not_mem_layout hbit (List.mem_of_mem_take htake)
    exact toNat_injective hvalue

/-- One field and a half, and a record of which three fields are kept. -/
theorem read_longest_readable_hp25c :
    let cpu := Processor.new .hp25c (.blank 0x1000)
    cpu.memory.size = cpu.hardware.memorySize ∧
      (∃ vs, LongestPrefix (fields (Text.bytes "7,5")) 224 vs ∧
        (read cpu (Text.bytes "7,5")).count = vs.length) ∧
      (read cpu ((Text.bytes (write cpu)).take 10)).count
        = ((Text.bytes (write cpu)).take 10).count comma := by
  intro cpu
  have hsize : cpu.memory.size = cpu.hardware.memorySize := by decide +kernel
  have hvalues : ∀ slot ∈ (Slot.layout cpu.hardware).flatten, slot.value cpu < 0x100 := by
    decide +kernel
  obtain ⟨vs, hprefix, hcount, -⟩ := (read_longest_readable cpu hsize (Text.bytes "7,5")).1
  exact ⟨hsize, ⟨vs, hprefix, hcount⟩,
    (read_longest_readable cpu hsize []).2 cpu rfl hvalues 10⟩

end Record

end Calculator

/-
# The slots of a record

What restoring one slot does to the values of all of them.  A restored slot has the value that is
stored for the number in its field (`value_assign_self`), every other slot keeps its value
(`value_assign_of_ne`), and no slot stands twice in the layout of a model (`nodup_layout`).  So the
slots of a record can be restored one after the other as if at once (`value_assignAll`).
-/
import Calculator.Proofs.History

namespace Calculator

namespace Slot

open Processor (ChangesOnly)

/-! ## 1. One slot -/

/-- The value that is stored in a slot for a number: a flag for whether it is not zero, a digit for
its low four bits, and for a pointer a position of the register. -/
def stored (v : Nat) : Slot → Nat
  | flag _ | status _ => (decide (v ≠ 0)).toNat
  | p | q => min (v % 0x10) 13
  | digit _ _ | f | gLow | gHigh | cell _ _ => v % 0x10

/-- The processor has the slot. -/
def Valid (cpu : Processor) : Slot → Prop
  | status bit => bit < 16
  | digit _ i => i < 14
  | cell k i => k < cpu.memory.size ∧ i < 14
  | flag _ | p | q | f | gLow | gHigh => True

theorem pointerValue_eq (v : Nat) : pointerValue v = min (v % 0x10) 13 := by
  unfold pointerValue
  split <;> omega

theorem bit_setBit (cpu : Processor) (i j : Nat) (v : Bool) (h : i < 16) :
    (cpu.setBit i v).bit j = if i = j then v else cpu.bit j := by
  unfold Processor.bit Processor.setBit Vector.getD
  rw [Vector.toArray_setIfInBounds, Array.getD_eq_getD_getElem?, Array.getElem?_setIfInBounds]
  split
  · rw [if_pos (by simpa using h)]
    rfl
  · exact Array.getD_eq_getD_getElem?.symm

theorem getD_modify (xs : Array Register) (k j : Nat) (update : Register → Register)
    (h : k < xs.size) :
    (xs.modify k update).getD j .zero =
      if k = j then update (xs.getD j .zero) else xs.getD j .zero := by
  rw [Array.getD_eq_getD_getElem?, Array.getD_eq_getD_getElem?, Array.getElem?_modify]
  split
  · subst j
    rw [Array.getElem?_eq_getElem h]
    rfl
  · rfl

theorem value_assign_self {cpu : Processor} {slot : Slot} (h : slot.Valid cpu) (v : Nat) :
    slot.value (slot.assign cpu v) = slot.stored v := by
  cases slot with
  | flag x => cases x <;> rfl
  | status bit =>
    simp only [value, assign, stored, bit_setBit cpu bit bit _ h, if_true]
  | digit r i =>
    simp only [value, assign, stored, Processor.register_setRegister, if_true]
    rw [Register.digit_put _ _ _ h, if_pos rfl]
  | p => exact pointerValue_eq v
  | q => exact pointerValue_eq v
  | f | gLow | gHigh => rfl
  | cell k i =>
    simp only [value, assign, stored]
    rw [getD_modify _ _ _ _ h.1, if_pos rfl, Register.digit_put _ _ _ h.2, if_pos rfl]

/-- The value of a slot depends on its component alone. -/
theorem value_of_agrees {cpu cpu' : Processor} {slot : Slot}
    (h : slot.component.Agrees cpu cpu') : slot.value cpu' = slot.value cpu := by
  cases slot with
  | flag x => cases x <;> exact congrArg Bool.toNat h
  | status bit => exact congrArg (fun s : Vector Bool 16 => (s.getD bit false).toNat) h
  | digit r i => exact congrArg (fun x : Register => x.digit i) h
  | p | q | f => exact h
  | gLow => exact congrArg Prod.fst h
  | gHigh => exact congrArg Prod.snd h
  | cell k i => exact congrArg (fun m : Array Register => (m.getD k .zero).digit i) h

/-- Two slots of one component are two bits, two digits or the two halves of g. -/
theorem value_assign_of_component {cpu : Processor} {s t : Slot} (ht : t.Valid cpu) (h : s ≠ t)
    (hc : s.component = t.component) (v : Nat) : s.value (t.assign cpu v) = s.value cpu := by
  cases t with
  | flag x =>
    cases s with
    | flag y => exact absurd (by cases x <;> cases y <;> first | rfl | cases hc) h
    | _ => cases x <;> cases hc
  | status bit =>
    cases s with
    | status bit' =>
      have hne : bit ≠ bit' := fun e => h (congrArg status e.symm)
      simp only [value, assign, bit_setBit cpu bit bit' _ ht, if_neg hne]
    | flag x => cases x <;> cases hc
    | _ => cases hc
  | digit r i =>
    cases s with
    | digit r' i' =>
      obtain rfl : r' = r := Component.register.inj hc
      have hne : i ≠ i' := fun e => h (congrArg (digit r') e.symm)
      simp only [value, assign, Processor.register_setRegister, if_true]
      rw [Register.digit_put_of_ne _ hne]
    | flag x => cases x <;> cases hc
    | _ => cases hc
  | cell k i =>
    cases s with
    | cell k' i' =>
      simp only [value, assign]
      rw [getD_modify _ _ _ _ ht.1]
      split
      · rename_i hk
        subst hk
        have hne : i ≠ i' := fun e => h (congrArg (cell k) e.symm)
        rw [Register.digit_put_of_ne _ hne]
      · rfl
    | flag x => cases x <;> cases hc
    | _ => cases hc
  | p | q | f =>
    cases s with
    | flag x => cases x <;> cases hc
    | _ => first | exact absurd rfl h | cases hc
  | gLow | gHigh =>
    cases s with
    | flag x => cases x <;> cases hc
    | _ => first | exact absurd rfl h | rfl

/-- Another slot keeps its value. -/
theorem value_assign_of_ne {cpu : Processor} {s t : Slot} (ht : t.Valid cpu) (h : s ≠ t)
    (v : Nat) : s.value (t.assign cpu v) = s.value cpu := by
  by_cases hc : s.component = t.component
  · exact value_assign_of_component ht h hc v
  · refine value_of_agrees (t.assign_changesOnly cpu v _ ?_)
    rwa [List.mem_singleton]

theorem size_assign (cpu : Processor) (slot : Slot) (v : Nat) :
    (slot.assign cpu v).memory.size = cpu.memory.size := by
  cases slot with
  | cell k i => exact Array.size_modify
  | _ => rfl

/-- Restoring a slot takes none away. -/
theorem valid_assign {cpu : Processor} {slot : Slot} (t : Slot) (v : Nat) :
    slot.Valid (t.assign cpu v) ↔ slot.Valid cpu := by
  cases slot with
  | cell k i =>
    simp only [Valid, size_assign]
  | _ => exact Iff.rfl

/-! ## 2. The layout -/

theorem nodup_processorLines (statusBits : Nat) : (processorLines statusBits).flatten.Nodup := by
  unfold processorLines
  rw [List.Nodup, List.pairwise_flatten]
  constructor
  · intro line hline
    simp only [List.mem_append, List.mem_cons, List.not_mem_nil, or_false, List.mem_map] at hline
    rcases hline with ((rfl | rfl) | ⟨r, -, rfl⟩) | rfl
    · decide
    · exact List.pairwise_map.mpr (List.nodup_range.imp fun hne e => hne (status.inj e))
    · cases r <;> decide
    · decide
  · simp [RegisterName.all, Flag.all]

theorem nodup_memoryLines (memorySize : Nat) : (memoryLines memorySize).flatten.Nodup := by
  have hpositions : positions.Nodup := by decide
  unfold memoryLines
  rw [List.Nodup, List.pairwise_flatten]
  constructor
  · intro line hline
    obtain ⟨k, -, rfl⟩ := List.mem_map.mp hline
    exact List.pairwise_map.mpr (hpositions.imp fun hne e => hne (cell.inj e).2)
  · rw [List.pairwise_map]
    refine List.nodup_range.imp ?_
    intro k l hne s hs t ht
    obtain ⟨i, -, rfl⟩ := List.mem_map.mp hs
    obtain ⟨j, -, rfl⟩ := List.mem_map.mp ht
    exact fun e => hne (cell.inj e).1

theorem mem_memoryLines {memorySize : Nat} {slot : Slot}
    (h : slot ∈ (memoryLines memorySize).flatten) :
    ∃ k i, k < memorySize ∧ i < 14 ∧ slot = cell k i := by
  obtain ⟨line, hline, hslot⟩ := List.mem_flatten.mp h
  obtain ⟨k, hk, rfl⟩ := List.mem_map.mp hline
  obtain ⟨i, hi, rfl⟩ := List.mem_map.mp hslot
  exact ⟨k, i, List.mem_range.mp hk, List.mem_range.mp (List.mem_reverse.mp hi), rfl⟩

/-- The processor's own lines hold no data register, and only positions and bits that there are. -/
theorem mem_processorLines {statusBits : Nat} {slot : Slot}
    (h : slot ∈ (processorLines statusBits).flatten) :
    slot.component ≠ .memory ∧
      (∀ bit, slot = status bit → bit < statusBits) ∧ ∀ r i, slot = digit r i → i < 14 := by
  obtain ⟨line, hline, hslot⟩ := List.mem_flatten.mp h
  simp only [processorLines, List.mem_append, List.mem_cons, List.not_mem_nil, or_false,
    List.mem_map] at hline
  rcases hline with ((rfl | rfl) | ⟨r, -, rfl⟩) | rfl
  · obtain ⟨x, -, rfl⟩ := List.mem_map.mp hslot
    exact ⟨by cases x <;> nofun, nofun, nofun⟩
  · obtain ⟨bit, hbit, rfl⟩ := List.mem_map.mp hslot
    refine ⟨nofun, fun b e => ?_, nofun⟩
    rw [← status.inj e]
    exact List.mem_range.mp hbit
  · obtain ⟨i, hi, rfl⟩ := List.mem_map.mp hslot
    refine ⟨nofun, nofun, fun r' j e => ?_⟩
    rw [← (digit.inj e).2]
    exact List.mem_range.mp (List.mem_reverse.mp hi)
  · simp only [List.mem_cons, List.not_mem_nil, or_false] at hslot
    rcases hslot with rfl | rfl | rfl | rfl | rfl <;> exact ⟨nofun, nofun, nofun⟩

/-- **No slot stands twice in a record.** -/
theorem nodup_layout (hw : Hardware) : (layout hw).flatten.Nodup := by
  unfold layout
  split
  · split
    · rw [List.flatten_append, List.nodup_append]
      refine ⟨nodup_processorLines _, nodup_memoryLines _, fun s hs t ht e => ?_⟩
      obtain ⟨k, i, -, -, rfl⟩ := mem_memoryLines ht
      subst e
      exact (mem_processorLines hs).1 rfl
    · exact nodup_memoryLines _
  · exact List.nodup_nil

/-- A slot of a record is a data register of the model, or one of the slots that only a Nut has. -/
theorem mem_layout {hw : Hardware} {slot : Slot} (h : slot ∈ (layout hw).flatten) :
    (hw.family = .nut ∧ slot ∈ (processorLines hw.statusBits).flatten) ∨
      ∃ k i, k < hw.memorySize ∧ i < 14 ∧ slot = cell k i := by
  unfold layout at h
  split at h
  · rw [List.flatten_append, List.mem_append] at h
    rcases h with h | h
    · split at h
      · exact .inl ⟨‹_›, h⟩
      · cases h
    · exact .inr (mem_memoryLines h)
  · cases h

/-- A processor with the data registers of its model has every slot of the record. -/
theorem valid_of_mem_layout {cpu : Processor}
    (hsize : cpu.memory.size = cpu.hardware.memorySize) {slot : Slot}
    (h : slot ∈ (layout cpu.hardware).flatten) : slot.Valid cpu := by
  have hbits : cpu.hardware.statusBits ≤ 16 := by
    unfold Processor.hardware
    cases cpu.model <;> decide
  rcases mem_layout h with ⟨-, hmem⟩ | ⟨k, i, hk, hi, rfl⟩
  · obtain ⟨hmemory, hstatus, hdigit⟩ := mem_processorLines hmem
    cases slot with
    | status bit => exact Nat.lt_of_lt_of_le (hstatus bit rfl) hbits
    | digit r i => exact hdigit r i rfl
    | cell k i => exact absurd rfl hmemory
    | flag _ | p | q | f | gLow | gHigh => trivial
  · exact ⟨hsize ▸ hk, hi⟩

end Slot

/-! ## 3. Several slots -/

namespace Record

theorem size_read (cpu : Processor) (bytes : List UInt8) :
    (read cpu bytes).cpu.memory.size = cpu.memory.size :=
  readSlots_preserves (motive := fun cpu' => cpu'.memory.size = cpu.memory.size)
    (fun slot _ cpu' v h => (slot.size_assign cpu' v).trans h) rfl bytes

/-- Restores one slot after the other. -/
def assignAll (cpu : Processor) (pairs : List (Slot × Nat)) : Processor :=
  pairs.foldl (fun cpu pair => pair.1.assign cpu pair.2) cpu

/-- The slots that are restored have their stored values, and the others keep theirs. -/
theorem value_assignAll {cpu : Processor} {pairs : List (Slot × Nat)}
    (hnodup : (pairs.map Prod.fst).Nodup) (hvalid : ∀ slot ∈ pairs.map Prod.fst, slot.Valid cpu) :
    (∀ slot v, (slot, v) ∈ pairs → slot.value (assignAll cpu pairs) = slot.stored v) ∧
      ∀ slot, slot ∉ pairs.map Prod.fst → slot.value (assignAll cpu pairs) = slot.value cpu := by
  induction pairs generalizing cpu with
  | nil => exact ⟨nofun, fun _ _ => rfl⟩
  | cons pair pairs ih =>
    obtain ⟨t, w⟩ := pair
    rw [List.map_cons, List.nodup_cons] at hnodup
    rw [List.map_cons, List.forall_mem_cons] at hvalid
    have hvalid' : ∀ slot ∈ pairs.map Prod.fst, slot.Valid (t.assign cpu w) :=
      fun slot hslot => (Slot.valid_assign t w).mpr (hvalid.2 slot hslot)
    obtain ⟨hset, hkept⟩ := ih hnodup.2 hvalid'
    constructor
    · intro slot v hmem
      rcases List.mem_cons.mp hmem with heq | hmem
      · obtain ⟨rfl, rfl⟩ := Prod.mk.inj heq
        exact (hkept slot hnodup.1).trans (Slot.value_assign_self hvalid.1 v)
      · exact hset slot v hmem
    · intro slot hslot
      rw [List.map_cons, List.mem_cons, not_or] at hslot
      exact (hkept slot hslot.2).trans (Slot.value_assign_of_ne hvalid.1 hslot.1 w)

end Record

end Calculator

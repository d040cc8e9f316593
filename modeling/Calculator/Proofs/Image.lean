/-
# The images that listings give

An image of ten bit words (`Rom.TenBit`) stays one whatever is written over it, and it keeps its
size.  The main statements are `tenBit_load` and `size_load`: from any listing at all, even one that
turns out to be no text, a model gets an image of its own size that holds ten bit words only.
-/
import Calculator.Rom.Listing

namespace Calculator

namespace Rom

/-! ## 1. Ten bit words -/

/-- Every word of the image has ten bits. -/
def TenBit (rom : Rom) : Prop := ∀ word ∈ rom.words, word < 0x400

variable {rom : Rom}

theorem TenBit.lt (h : rom.TenBit) {a : Address} {word : Nat} (hw : rom.word? a = some word) :
    word < 0x400 :=
  h word (Array.mem_of_getElem? hw)

theorem tenBit_blank (size : Nat) : (blank size).TenBit := by
  intro word hword
  have hzero := (Array.mem_replicate.mp hword).2
  omega

/-- A word that is put in loses its upper bits. -/
theorem TenBit.put (h : rom.TenBit) (a : Address) (w : Nat) : (rom.put a w).TenBit := by
  intro word hword
  rcases Array.mem_or_eq_of_mem_setIfInBounds hword with hold | rfl
  · exact h word hold
  · exact Nat.mod_lt w (by decide)

@[simp] theorem size_blank (size : Nat) : (blank size).size = size :=
  Array.size_replicate

/-- A word past the end is dropped, so an image does not grow. -/
@[simp] theorem size_put (rom : Rom) (a : Address) (w : Nat) : (rom.put a w).size = rom.size :=
  Array.size_setIfInBounds

/-- A word that was put in is found at its address, and elsewhere nothing has changed. -/
theorem word?_put {a : Address} (h : a < rom.size) (w : Nat) (b : Address) :
    (rom.put a w).word? b = if a = b then some (w % 0x400) else rom.word? b := by
  have ha : a < rom.words.size := h
  unfold put word?
  rw [Array.getElem?_setIfInBounds, if_pos ha]

/-- A bank of one word over and over, with another word in front. -/
theorem TenBit.put_replicate {rest : Nat} (hrest : rest < 0x400) (first : Nat) :
    (Rom.put ⟨Array.replicate 0x1000 rest⟩ 0 first).TenBit := by
  refine TenBit.put ?_ 0 first
  intro word hword
  have hcount := (Array.mem_replicate.mp hword).2
  omega

theorem word?_put_replicate_zero (first rest : Nat) :
    (Rom.put ⟨Array.replicate 0x1000 rest⟩ 0 first).word? 0 = some (first % 0x400) := by
  simp [put, word?]

theorem word?_put_replicate (first rest : Nat) {a : Address} (h : 0 < a) (hlt : a < 0x1000) :
    (Rom.put ⟨Array.replicate 0x1000 rest⟩ 0 first).word? a = some rest := by
  have hne : 0 ≠ a := Nat.ne_of_lt h
  simp [put, word?, hne, hlt]

/-- An image has a word at just the addresses below its size. -/
theorem exists_word? {a : Address} (h : a < rom.size) : ∃ word, rom.word? a = some word :=
  ⟨rom.words[a], Array.getElem?_eq_getElem h⟩

end Rom

/-! ## 2. Writing a listing -/

namespace Patch

/-- A line writes one word or none. -/
theorem rom_apply (p : Patch) (line : Nat) (e : ListingEntry) :
    (p.apply line e).rom = p.rom ∨ (p.apply line e).rom = p.rom.put e.address e.word := by
  unfold apply
  split
  · exact .inr rfl
  · exact .inl rfl

/-- What every written word keeps of an image, a listing keeps. -/
theorem applyLines_induction {motive : Rom → Prop}
    (hput : ∀ rom a w, motive rom → motive (rom.put a w)) (radix line : Nat)
    (lines : List (List UInt8)) (p : Patch) (h : motive p.rom) :
    motive (applyLines radix line lines p).rom := by
  induction lines generalizing line p with
  | nil => exact h
  | cons bytes rest ih =>
    unfold applyLines
    split
    · exact h
    · split
      · exact ih _ _ h
      · refine ih _ _ ?_
        rcases rom_apply p line _ with heq | heq <;> rw [heq]
        · exact h
        · exact hput _ _ _ h

end Patch

namespace Rom

/-- **A listing gives ten bit words only**, whatever stands in it. -/
theorem tenBit_load (model : Model) (listing : List UInt8) : (load model listing).rom.TenBit :=
  Patch.applyLines_induction (fun _ a w h => h.put a w) _ _ _ _ (tenBit_blank _)

/-- **A listing gives an image of the size of the model**, whatever addresses it names. -/
theorem size_load (model : Model) (listing : List UInt8) :
    (load model listing).rom.size = model.hardware.romSize :=
  Patch.applyLines_induction (motive := fun rom => rom.size = model.hardware.romSize)
    (fun rom a w h => (size_put rom a w).trans h) _ _ _ _ (size_blank _)

end Rom

end Calculator

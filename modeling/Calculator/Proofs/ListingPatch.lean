/-
# What a listing writes

`ListingEntry.Says` tells when a line says something, in terms of its characters alone, and
`ofLine?_eq_some` that the reader finds just that.  A listing is then no more than the numbered
entries of its lines: written over an image, they leave the word of the last entry for each address
and are told one by one where they lie beyond it (`Patch.Writes`).  A line that is no text ends the
reading, as if the listing had ended before it (`applyLines_stops`).
-/
import Calculator.Proofs.Image
import Calculator.Proofs.RecordField

namespace Calculator

/-! ## 1. What a line says -/

namespace Text

/-- The text is a number below `limit`: an optional plus sign and then digits of the radix. -/
def StandsFor (radix limit : Nat) (cs : List Char) (v : Nat) : Prop :=
  ∃ (digits : List Char) (values : List Nat), (cs = digits ∨ cs = '+' :: digits) ∧ digits ≠ [] ∧
    digits.map (digitValue? radix) = values.map some ∧ v = valueOf radix values ∧ v < limit

theorem dropWhile_eq_iff {p : Char → Bool} {cs rest : List Char} :
    cs.dropWhile p = rest ↔ ∃ front, cs = front ++ rest ∧ (∀ c ∈ front, p c = true) ∧
      ∀ c ∈ rest.head?, p c = false := by
  constructor
  · rintro rfl
    refine ⟨cs.takeWhile p, List.takeWhile_append_dropWhile.symm,
      List.all_eq_true.mp List.all_takeWhile, fun c hc => ?_⟩
    have hhead := List.head?_dropWhile_not p cs
    rw [Option.mem_def.mp hc] at hhead
    simpa using hhead
  · rintro ⟨front, rfl, hfront, hhead⟩
    rw [List.dropWhile_append_of_pos hfront]
    rcases rest with _ | ⟨c, rest⟩
    · rfl
    · exact List.dropWhile_cons_of_neg (by simp [hhead c rfl])

/-- The longest front that a test accepts ends where the text does or before a character that the
test rejects. -/
theorem takeWhile_eq_iff {p : Char → Bool} {cs front : List Char} :
    cs.takeWhile p = front ↔ ∃ rest, cs = front ++ rest ∧ (∀ c ∈ front, p c = true) ∧
      ∀ c ∈ rest.head?, p c = false := by
  have hwhole := List.takeWhile_append_dropWhile (p := p) (l := cs)
  constructor
  · rintro rfl
    obtain ⟨-, -, -, hhead⟩ := dropWhile_eq_iff.mp (rfl : cs.dropWhile p = _)
    exact ⟨cs.dropWhile p, hwhole.symm, List.all_eq_true.mp List.all_takeWhile, hhead⟩
  · rintro ⟨rest, hcs, hfront, hhead⟩
    rw [dropWhile_eq_iff.mpr ⟨front, hcs, hfront, hhead⟩] at hwhole
    exact List.append_cancel_right (hwhole.trans hcs)

end Text

namespace ListingEntry

/-- The line without its outer blanks is an address, a separator and the rest; the rest without its
outer blanks begins with a word; and both stand for numbers of thirty-two bits. -/
def Says (radix : Nat) (line : List Char) (e : ListingEntry) : Prop :=
  ∃ address separator rest word tail,
    Text.trim line = address ++ separator :: rest ∧
    (∀ c ∈ address, isSeparator c = false) ∧ isSeparator separator = true ∧
    Text.trim rest = word ++ tail ∧
    (∀ c ∈ word, endsWord c = false) ∧ (∀ c ∈ tail.head?, endsWord c = true) ∧
    Text.StandsFor radix limit (Text.trim address) e.address ∧
    Text.StandsFor radix limit word e.word

theorem cut?_eq_some {cs address rest : List Char} :
    cut? cs = some (address, rest) ↔ ∃ separator, cs = address ++ separator :: rest ∧
      (∀ c ∈ address, isSeparator c = false) ∧ isSeparator separator = true := by
  constructor
  · intro h
    unfold cut? at h
    split at h
    · cases h
    · rename_i separator tail hdrop
      obtain ⟨rfl, rfl⟩ := Prod.mk.inj (Option.some.inj h)
      obtain ⟨front, hcs, hfront, hhead⟩ := Text.dropWhile_eq_iff.mp hdrop
      rw [Text.takeWhile_eq_iff.mpr ⟨_, hcs, hfront, hhead⟩]
      exact ⟨separator, hcs, by simpa using hfront, by simpa using hhead⟩
  · rintro ⟨separator, rfl, haddress, hseparator⟩
    have hall : ∀ c ∈ address, (!isSeparator c) = true := by simpa using haddress
    have hhead : ∀ c ∈ (separator :: rest).head?, (!isSeparator c) = false := by
      simpa using hseparator
    unfold cut?
    rw [Text.dropWhile_eq_iff.mpr ⟨address, rfl, hall, hhead⟩,
      Text.takeWhile_eq_iff.mpr ⟨separator :: rest, rfl, hall, hhead⟩]

theorem ofLine?_eq_some_iff {radix : Nat} {line : List Char} {e : ListingEntry} :
    ofLine? radix line = some e ↔ ∃ address rest, cut? (Text.trim line) = some (address, rest) ∧
      Text.numeral? radix limit (Text.trim address) = some e.address ∧
      Text.numeral? radix limit ((Text.trim rest).takeWhile fun c => !endsWord c)
        = some e.word := by
  unfold ofLine?
  simp only [Option.bind_eq_bind, Option.bind_eq_some_iff, Option.pure_def, Option.some.injEq,
    Prod.exists]
  constructor
  · rintro ⟨address, rest, hcut, a, haddress, w, hword, rfl⟩
    exact ⟨address, rest, hcut, haddress, hword⟩
  · rintro ⟨address, rest, hcut, haddress, hword⟩
    exact ⟨address, rest, hcut, _, haddress, _, hword, rfl⟩

/-- **The reader finds what a line says.** -/
theorem ofLine?_eq_some {radix : Nat} {line : List Char} {e : ListingEntry} :
    ofLine? radix line = some e ↔ e.Says radix line := by
  rw [ofLine?_eq_some_iff]
  constructor
  · rintro ⟨address, rest, hcut, haddress, hword⟩
    obtain ⟨separator, hline, hfree, hseparator⟩ := cut?_eq_some.mp hcut
    obtain ⟨tail, hrest, hin, hends⟩ := Text.takeWhile_eq_iff.mp
      (rfl : (Text.trim rest).takeWhile (fun c => !endsWord c) = _)
    refine ⟨address, separator, rest, _, tail, hline, hfree, hseparator, hrest, ?_, ?_,
      Text.numeral?_eq_some.mp haddress, Text.numeral?_eq_some.mp hword⟩
    · simpa using hin
    · simpa using hends
  · rintro ⟨address, separator, rest, word, tail, hline, hfree, hseparator, hrest, hin, hends,
      haddress, hword⟩
    have htake : (Text.trim rest).takeWhile (fun c => !endsWord c) = word :=
      Text.takeWhile_eq_iff.mpr ⟨tail, hrest, by simpa using hin, by simpa using hends⟩
    refine ⟨address, rest, cut?_eq_some.mpr ⟨separator, hline, hfree, hseparator⟩,
      Text.numeral?_eq_some.mpr haddress, ?_⟩
    rw [htake]
    exact Text.numeral?_eq_some.mpr hword

end ListingEntry

/-! ## 2. What the entries write -/

namespace Patch

variable {p p' p'' : Patch} {entries entries' : List (Nat × ListingEntry)}
  {before : List (List UInt8)} {bad : List UInt8}

/-- The entries of lines with the numbers of the lines, the first of which is `line`. -/
def entriesFrom (radix line : Nat) (lines : List (List UInt8)) : List (Nat × ListingEntry) :=
  (lines.zipIdx line).filterMap fun (bytes, n) =>
    ((Text.decode? bytes).bind (ListingEntry.ofLine? radix)).map fun e => (n, e)

theorem entriesFrom_cons {bytes : List UInt8} {text : List Char}
    (h : Text.decode? bytes = some text) (radix line : Nat) (rest : List (List UInt8)) :
    entriesFrom radix line (bytes :: rest) =
      ((ListingEntry.ofLine? radix text).map fun e => (line, e)).toList ++
        entriesFrom radix (line + 1) rest := by
  unfold entriesFrom
  rw [List.zipIdx_cons, List.filterMap_cons]
  simp only [h, Option.bind_some]
  cases ListingEntry.ofLine? radix text <;> rfl

/-- The word of the last entry for an address. -/
def lastWord (a : Nat) (entries : List (Nat × ListingEntry)) : Option Nat :=
  (entries.filter fun x => x.2.address = a).getLast?.map fun x => x.2.word

theorem lastWord_append (a : Nat) (entries entries' : List (Nat × ListingEntry)) :
    lastWord a (entries ++ entries') = (lastWord a entries').or (lastWord a entries) := by
  unfold lastWord
  rw [List.filter_append, List.getLast?_append, Option.map_or]

theorem lastWord_singleton (a line : Nat) (e : ListingEntry) :
    lastWord a [(line, e)] = if e.address = a then some e.word else none := by
  unfold lastWord
  by_cases h : e.address = a <;> simp [h]

/-- The entries have been written over an image: each address has the low ten bits of the last word
for it, entries within the image are counted, and the others are told in order. -/
structure Writes (entries : List (Nat × ListingEntry)) (p p' : Patch) : Prop where
  size : p'.rom.size = p.rom.size
  word : ∀ a < p.rom.size,
    p'.rom.word? a = ((lastWord a entries).map (· % 0x400)).or (p.rom.word? a)
  written : p'.written = p.written + entries.countP fun x => x.2.address < p.rom.size
  warnings : p'.warnings.toList = p.warnings.toList ++
    (entries.filter fun x => p.rom.size ≤ x.2.address).map fun x =>
      .patchOutOfRange x.1 x.2.address

theorem Writes.nil (p : Patch) : Writes [] p p where
  size := rfl
  word := fun _ _ => rfl
  written := rfl
  warnings := (List.append_nil _).symm

theorem Writes.apply (p : Patch) (line : Nat) (e : ListingEntry) :
    Writes [(line, e)] p (p.apply line e) := by
  unfold Patch.apply
  by_cases hin : e.address < p.rom.size
  · rw [if_pos hin]
    constructor
    case size => exact Rom.size_put _ _ _
    case word =>
      intro a ha
      rw [lastWord_singleton]
      refine (Rom.word?_put hin e.word a).trans ?_
      split <;> rfl
    case written => simp [hin]
    case warnings => simp [hin]
  · rw [if_neg hin]
    constructor
    case size => rfl
    case word =>
      intro a ha
      have hne : e.address ≠ a := fun h => hin (h ▸ ha)
      rw [lastWord_singleton, if_neg hne]
      rfl
    case written => simp [hin]
    case warnings => simp [Nat.le_of_not_lt hin]

theorem Writes.trans (h : Writes entries p p') (h' : Writes entries' p' p'') :
    Writes (entries ++ entries') p p'' where
  size := h'.size.trans h.size
  word := by
    intro a ha
    rw [h'.word a (h.size.symm ▸ ha), h.word a ha, lastWord_append, Option.map_or, Option.or_assoc]
  written := by
    rw [h'.written, h.written, h.size, List.countP_append, Nat.add_assoc]
  warnings := by
    rw [h'.warnings, h.warnings, h.size, List.filter_append, List.map_append, List.append_assoc]

/-- Writes what a line says, if it says anything. -/
def applyText (radix line : Nat) (text : List Char) (p : Patch) : Patch :=
  (ListingEntry.ofLine? radix text).elim p (p.apply line)

theorem applyLines_cons {bytes : List UInt8} {text : List Char}
    (h : Text.decode? bytes = some text) (radix line : Nat) (rest : List (List UInt8)) (p : Patch) :
    applyLines radix line (bytes :: rest) p =
      applyLines radix (line + 1) rest (applyText radix line text p) := by
  rw [applyLines]
  simp only [h]
  unfold applyText
  cases ListingEntry.ofLine? radix text <;> rfl

theorem applyLines_of_not_isText {bytes : List UInt8} (h : ¬Text.IsText bytes) (radix line : Nat)
    (rest : List (List UInt8)) (p : Patch) :
    applyLines radix line (bytes :: rest) p = { p with readable := false } := by
  have hdecode : Text.decode? bytes = none :=
    Option.eq_none_iff_forall_ne_some.mpr fun cs hcs => h (Text.isText_iff_decode?.mpr ⟨cs, hcs⟩)
  rw [applyLines]
  simp only [hdecode]

theorem applyText_writes (radix line : Nat) (text : List Char) (p : Patch) :
    Writes ((ListingEntry.ofLine? radix text).map fun e => (line, e)).toList p
      (applyText radix line text p) ∧ (applyText radix line text p).readable = p.readable := by
  unfold applyText
  cases ListingEntry.ofLine? radix text with
  | none => exact ⟨.nil p, rfl⟩
  | some e =>
    refine ⟨.apply p line e, ?_⟩
    show (p.apply line e).readable = p.readable
    unfold Patch.apply
    split <;> rfl

/-- Lines that are texts write their entries, one line after the other. -/
theorem applyLines_writes (radix line : Nat) (p : Patch) (h : ∀ bytes ∈ before, Text.IsText bytes) :
    Writes (entriesFrom radix line before) p (applyLines radix line before p) ∧
      (applyLines radix line before p).readable = p.readable := by
  induction before generalizing line p with
  | nil => exact ⟨.nil p, rfl⟩
  | cons bytes rest ih =>
    obtain ⟨hbytes, hrest⟩ := List.forall_mem_cons.mp h
    obtain ⟨text, htext⟩ := Text.isText_iff_decode?.mp hbytes
    obtain ⟨hfirst, hkept⟩ := applyText_writes radix line text p
    obtain ⟨hlater, hkept'⟩ := ih (line + 1) (applyText radix line text p) hrest
    rw [applyLines_cons htext, entriesFrom_cons htext]
    exact ⟨hfirst.trans hlater, hkept'.trans hkept⟩

/-- A line that is no text ends the reading. -/
theorem applyLines_stops (radix line : Nat) (p : Patch) (h : ∀ bytes ∈ before, Text.IsText bytes)
    (hbad : ¬Text.IsText bad) (after : List (List UInt8)) :
    applyLines radix line (before ++ bad :: after) p =
      { applyLines radix line before p with readable := false } := by
  induction before generalizing line p with
  | nil => exact applyLines_of_not_isText hbad radix line after p
  | cons bytes rest ih =>
    obtain ⟨hbytes, hrest⟩ := List.forall_mem_cons.mp h
    obtain ⟨text, htext⟩ := Text.isText_iff_decode?.mp hbytes
    rw [List.cons_append, applyLines_cons htext, applyLines_cons htext]
    exact ih (line + 1) (applyText radix line text p) hrest

/-- The first line that is no text. -/
theorem exists_first_bad {lines : List (List UInt8)} (h : ∃ bytes ∈ lines, ¬Text.IsText bytes) :
    ∃ before bad after, lines = before ++ bad :: after ∧
      (∀ bytes ∈ before, Text.IsText bytes) ∧ ¬Text.IsText bad := by
  induction lines with
  | nil =>
    obtain ⟨bytes, hmem, -⟩ := h
    cases hmem
  | cons bytes rest ih =>
    by_cases hbytes : Text.IsText bytes
    · have hlater : ∃ bytes ∈ rest, ¬Text.IsText bytes := by simpa [hbytes] using h
      obtain ⟨before, bad, after, rfl, hbefore, hbad⟩ := ih hlater
      exact ⟨bytes :: before, bad, after, rfl, List.forall_mem_cons.mpr ⟨hbytes, hbefore⟩, hbad⟩
    · exact ⟨[], bytes, rest, rfl, by simp, hbytes⟩

end Patch

/-! ## 3. Whole listings -/

namespace Rom

/-- The numbered entries of a listing. -/
def entries (radix : Nat) (listing : List UInt8) : List (Nat × ListingEntry) :=
  Patch.entriesFrom radix 1 (Text.lines listing)

/-- **A listing writes the entries of its lines.**  Its lines say what `ListingEntry.Says` tells.  A
listing that is a text is read to its end and writes its entries, whatever it says.  A listing with
a line that is no text fails and leaves what the lines before the first such line leave.  A model
therefore gets an image of its own size and of ten bit words from any bytes at all. -/
theorem patch_writes_entries (rom : Rom) (radix : Nat) (listing : List UInt8) :
    (∀ line e, ListingEntry.ofLine? radix line = some e ↔ e.Says radix line) ∧
    (Text.IsText listing → (rom.patch radix listing).error? = none ∧
      Patch.Writes (entries radix listing) ⟨rom, 0, #[], true⟩ (rom.patch radix listing)) ∧
    ((∃ line ∈ Text.lines listing, ¬Text.IsText line) →
      (rom.patch radix listing).error? = some .invalidText ∧
      ∃ before bad after, Text.lines listing = before ++ bad :: after ∧
        Text.IsText (Text.ended before) ∧ ¬Text.IsText bad ∧
        rom.patch radix listing =
          { rom.patch radix (Text.ended before) with readable := false }) ∧
    ∀ model, (load model listing).rom.size = model.hardware.romSize ∧
      (load model listing).rom.TenBit := by
  refine ⟨fun _ _ => ListingEntry.ofLine?_eq_some, fun htext => ?_, fun hbad => ?_, fun model => ?_⟩
  · obtain ⟨hwrites, hreadable⟩ :=
      Patch.applyLines_writes radix 1 ⟨rom, 0, #[], true⟩ (Text.isText_iff_lines.mp htext)
    exact ⟨if_pos hreadable, hwrites⟩
  · obtain ⟨before, bad, after, hlines, hbefore, hbad⟩ := Patch.exists_first_bad hbad
    have hcut : Text.lines (Text.ended before) = before := by
      refine Text.lines_ended fun line hline => ?_
      have hmem : line ∈ Text.lines listing := hlines ▸ List.mem_append_left _ hline
      exact Text.lineFeed_not_mem_of_mem_lines hmem
    have hstops : rom.patch radix listing =
        { rom.patch radix (Text.ended before) with readable := false } := by
      unfold patch
      rw [hlines, hcut]
      exact Patch.applyLines_stops radix 1 _ hbefore hbad after
    refine ⟨?_, before, bad, after, hlines, ?_, hbad, hstops⟩
    · rw [hstops]
      rfl
    · rw [Text.isText_iff_lines, hcut]
      exact hbefore
  · exact ⟨size_load model listing, tenBit_load model listing⟩

/-- A listing with a word inside the image and one beyond it, and one that breaks off. -/
theorem patch_writes_entries_two :
    let p := (blank 2).patch 8 (Text.bytes "1:17 ; fifteen\n7:1\n")
    p.error? = none ∧ p.rom.word? 1 = some 15 ∧ p.written = 1 ∧
      p.warnings.toList = [.patchOutOfRange 2 7] ∧
      ((blank 2).patch 8 (Text.bytes "1:17\n" ++ [0xff])).error? = some .invalidText := by
  intro p
  obtain ⟨-, hread, -⟩ :=
    patch_writes_entries (blank 2) 8 (Text.bytes "1:17 ; fifteen\n7:1\n")
  obtain ⟨-, -, hfails, -⟩ := patch_writes_entries (blank 2) 8 (Text.bytes "1:17\n" ++ [0xff])
  obtain ⟨herror, hwrites⟩ := hread ⟨_, rfl⟩
  have hentries : entries 8 (Text.bytes "1:17 ; fifteen\n7:1\n") =
      [(1, ⟨1, 15⟩), (2, ⟨7, 1⟩)] := by decide +kernel
  have hbad : ¬Text.IsText [0xff] := by
    have hnone : Text.decode? [0xff] = none := by decide +kernel
    simp [Text.isText_iff_decode?, hnone]
  have hmem : [0xff] ∈ Text.lines (Text.bytes "1:17\n" ++ [0xff]) := by decide +kernel
  rw [hentries] at hwrites
  exact ⟨herror, hwrites.word 1 (by decide), hwrites.written, hwrites.warnings,
    (hfails ⟨_, hmem, hbad⟩).1⟩

end Rom

end Calculator

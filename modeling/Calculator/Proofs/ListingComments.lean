/-
# Comments at the end of a line

A listing has no syntax for comments: what follows the word of a line falls away because a blank, a
comma or a semicolon ends the word.  A comment is therefore harmless after a blank or behind a
semicolon: the line goes on saying what it says (`Says.comment`).  A number sign ends no word: put
right after one it belongs to it, and the line no longer says anything (`ofLine?_number_sign`).
`comment_inert` carries both over to whole listings.
-/
import Calculator.Proofs.ListingPatch

namespace Calculator

/-! ## 1. Trimmed text -/

namespace Text

/-- Trimmed text is what stands between the outer blanks. -/
theorem trim_eq_iff {cs text : List Char} : trim cs = text ↔ ∃ before after,
    cs = before ++ (text ++ after) ∧ (∀ c ∈ before, isBlank c = true) ∧
      (∀ c ∈ after, isBlank c = true) ∧ (∀ c ∈ (text ++ after).head?, isBlank c = false) ∧
      ∀ c ∈ text.getLast?, isBlank c = false := by
  have hback : trim cs = text ↔ ∃ after, cs.dropWhile isBlank = text ++ after ∧
      (∀ c ∈ after, isBlank c = true) ∧ ∀ c ∈ text.getLast?, isBlank c = false := by
    unfold trim
    rw [List.reverse_eq_iff, dropWhile_eq_iff, List.head?_reverse]
    constructor
    · rintro ⟨after, hcs, hafter, hlast⟩
      refine ⟨after.reverse, ?_, by simpa using hafter, hlast⟩
      rw [← List.reverse_inj, hcs, List.reverse_append, List.reverse_reverse]
    · rintro ⟨after, hcs, hafter, hlast⟩
      exact ⟨after.reverse, by rw [hcs, List.reverse_append], by simpa using hafter, hlast⟩
  rw [hback]
  constructor
  · rintro ⟨after, hcs, hafter, hlast⟩
    obtain ⟨before, hbefore, hblank, hhead⟩ := dropWhile_eq_iff.mp hcs
    exact ⟨before, after, hbefore, hblank, hafter, hhead, hlast⟩
  · rintro ⟨before, after, hcs, hblank, hafter, hhead, hlast⟩
    exact ⟨after, dropWhile_eq_iff.mpr ⟨before, hcs, hblank, hhead⟩, hafter, hlast⟩

/-- A text that begins with a character that is no blank, up to the blanks at its end. -/
theorem exists_trimmed {c : Char} (hc : isBlank c = false) (cs : List Char) :
    ∃ text after, c :: cs = c :: text ++ after ∧ (∀ x ∈ after, isBlank x = true) ∧
      ∀ front, ∀ x ∈ (front ++ c :: text).getLast?, isBlank x = false := by
  obtain ⟨before, after, hcs, hbefore, hafter, -, hlast⟩ :=
    trim_eq_iff.mp (rfl : trim (c :: cs) = _)
  have hstart : before = [] := by
    rcases before with _ | ⟨b, before⟩
    · rfl
    · have hb := hbefore b List.mem_cons_self
      rw [← (List.cons.inj hcs).1, hc] at hb
      cases hb
  subst hstart
  rcases htrim : trim (c :: cs) with _ | ⟨b, text⟩
  · rw [htrim, List.nil_append, List.nil_append] at hcs
    have hblank := hafter c (hcs ▸ List.mem_cons_self)
    rw [hc] at hblank
    cases hblank
  · rw [htrim] at hcs hlast
    obtain rfl : c = b := (List.cons.inj hcs).1
    refine ⟨text, after, hcs, hafter, fun front x hx => hlast x ?_⟩
    rw [List.getLast?_append, List.getLast?_cons] at hx
    rw [List.getLast?_cons]
    exact hx

/-- A text behind blanks keeps what stands before a character that is no blank. -/
theorem trim_append {before text : List Char} {c : Char} (hbefore : ∀ x ∈ before, isBlank x = true)
    (hhead : ∀ x ∈ text.head?, isBlank x = false) (hc : isBlank c = false) (t : List Char) :
    ∃ tail, trim (before ++ (text ++ c :: t)) = text ++ c :: tail := by
  obtain ⟨tail, after, ht, hafter, hlast⟩ := exists_trimmed hc t
  refine ⟨tail, trim_eq_iff.mpr ⟨before, after, by simp [ht], hbefore, hafter, ?_, hlast text⟩⟩
  cases text with
  | nil => simpa using hc
  | cons x text => simpa using hhead

/-- What a trimmed text becomes when blanks and a further text are put behind it. -/
theorem trim_comment {cs text gap : List Char} {c : Char} (h : trim cs = text) (hne : text ≠ [])
    (hgap : ∀ x ∈ gap, isBlank x = true) (hc : isBlank c = false) (t : List Char) :
    ∃ blanks tail, (∀ x ∈ blanks, isBlank x = true) ∧ (blanks = [] → gap = []) ∧
      trim (cs ++ (gap ++ c :: t)) = text ++ (blanks ++ c :: tail) := by
  obtain ⟨before, after, rfl, hbefore, hafter, hhead, -⟩ := trim_eq_iff.mp h
  have hblanks : ∀ x ∈ after ++ gap, isBlank x = true := by
    intro x hx
    rcases List.mem_append.mp hx with hx | hx
    · exact hafter x hx
    · exact hgap x hx
  have hstart : ∀ x ∈ (text ++ (after ++ gap)).head?, isBlank x = false := by
    cases text with
    | nil => exact absurd rfl hne
    | cons x text => simpa using hhead
  obtain ⟨tail, htrim⟩ := trim_append hbefore hstart hc t
  refine ⟨after ++ gap, tail, hblanks, fun hnil => (List.append_eq_nil_iff.mp hnil).2, ?_⟩
  simpa only [List.append_assoc] using htrim

theorem StandsFor.ne_nil {radix limit v : Nat} {cs : List Char} (h : StandsFor radix limit cs v) :
    cs ≠ [] := by
  rintro rfl
  obtain ⟨digits, -, hdigits | hdigits, hne, -⟩ := h
  · exact hne hdigits.symm
  · cases hdigits

end Text

/-! ## 2. A comment behind a line -/

namespace ListingEntry

variable {radix : Nat} {line gap : List Char} {mark : Char} {e : ListingEntry}

theorem endsWord_of_isBlank {c : Char} (h : Text.isBlank c = true) : endsWord c = true := by
  unfold endsWord
  rw [h]
  rfl

theorem isBlank_of_endsWord {c : Char} (h : endsWord c = false) : Text.isBlank c = false := by
  rw [Bool.eq_false_iff]
  intro hblank
  rw [endsWord_of_isBlank hblank] at h
  cases h

theorem isBlank_of_isSeparator {c : Char} (h : isSeparator c = true) : Text.isBlank c = false := by
  unfold isSeparator at h
  simp only [Bool.or_eq_true, beq_iff_eq] at h
  rcases h with rfl | rfl <;> decide

theorem endsWord_head {tail blanks : List Char} (htail : ∀ c ∈ tail.head?, endsWord c = true)
    (hblanks : ∀ c ∈ blanks, Text.isBlank c = true) (hmark : blanks = [] → endsWord mark = true)
    (t : List Char) : ∀ c ∈ (tail ++ (blanks ++ mark :: t)).head?, endsWord c = true := by
  rcases tail with _ | ⟨c, tail⟩
  · rcases blanks with _ | ⟨c, blanks⟩
    · simpa using hmark rfl
    · simpa using endsWord_of_isBlank (hblanks c List.mem_cons_self)
  · simpa using htail

/-- A line says the same with a comment behind it, if a blank comes first or the mark of the comment
ends a word. -/
theorem Says.comment (h : e.Says radix line) (hgap : ∀ c ∈ gap, Text.isBlank c = true)
    (hmark : Text.isBlank mark = false) (hends : gap = [] → endsWord mark = true) (t : List Char) :
    e.Says radix (line ++ (gap ++ mark :: t)) := by
  obtain ⟨address, separator, rest, word, tail, hline, hfree, hseparator, hrest, hin, htail,
    haddress, hword⟩ := h
  have hne : word ++ tail ≠ [] := fun hnil => hword.ne_nil (List.append_eq_nil_iff.mp hnil).1
  obtain ⟨blanks, rest', hblanks, hnone, hline'⟩ := Text.trim_comment hline (by simp) hgap hmark t
  obtain ⟨blanks', tail', hblanks', hnone', hrest'⟩ :=
    Text.trim_comment hrest hne hblanks hmark rest'
  refine ⟨address, separator, rest ++ (blanks ++ mark :: rest'), word,
    tail ++ (blanks' ++ mark :: tail'), ?_, hfree, hseparator, ?_, hin, ?_, haddress, hword⟩
  · rw [hline', List.append_assoc, List.cons_append]
  · rw [hrest', List.append_assoc]
  · exact endsWord_head htail hblanks' (fun hnil => hends (hnone (hnone' hnil))) tail'

/-! ## 3. A number sign behind a word -/

/-- The line ends with its word, without a blank, a comma or a semicolon behind it. -/
def EndsInWord (line : List Char) : Prop :=
  ∃ front separator gap word, line = front ++ separator :: (gap ++ word) ∧
    (∀ c ∈ front, isSeparator c = false) ∧ isSeparator separator = true ∧
    (∀ c ∈ gap, Text.isBlank c = true) ∧ ∀ c ∈ word, endsWord c = false

/-- No number has a number sign in it. -/
theorem number_sign_not_mem {limit v : Nat} {cs : List Char}
    (h : Text.numeral? radix limit cs = some v) : '#' ∉ cs := by
  obtain ⟨digits, values, hcs, -, hvalues, -⟩ := Text.numeral?_eq_some.mp h
  have hdigits : '#' ∉ digits := by
    intro hmem
    have hvalue : Text.digitValue? radix '#' ∈ values.map some :=
      hvalues ▸ List.mem_map_of_mem hmem
    have hnone : Text.digitValue? radix '#' = none := rfl
    rw [hnone] at hvalue
    simp at hvalue
  rcases hcs with rfl | rfl
  · exact hdigits
  · simpa using hdigits

/-- Right behind a word, a number sign becomes a part of it, and the line says nothing. -/
theorem ofLine?_number_sign (radix : Nat) (h : EndsInWord line) (t : List Char) :
    ofLine? radix (line ++ '#' :: t) = none := by
  refine Option.eq_none_iff_forall_ne_some.mpr fun e he => ?_
  obtain ⟨address, rest, hcut, -, hword⟩ := ofLine?_eq_some_iff.mp he
  obtain ⟨front, separator, gap, word, rfl, hfree, hseparator, hgap, hin⟩ := h
  -- the address begins where the blanks of the line end
  obtain ⟨before, hsplit, hbefore, hhead⟩ :=
    Text.dropWhile_eq_iff.mp (rfl : front.dropWhile Text.isBlank = _)
  generalize front.dropWhile Text.isBlank = start at hsplit hhead
  subst hsplit
  have hsign : Text.isBlank '#' = false := by decide
  have hstart : ∀ c ∈ (start ++ separator :: (gap ++ word)).head?, Text.isBlank c = false := by
    cases start with
    | nil => simpa using isBlank_of_isSeparator hseparator
    | cons c start => simpa using hhead
  have hfirst : ∀ c ∈ word.head?, Text.isBlank c = false :=
    fun c hc => isBlank_of_endsWord (hin c (List.mem_of_head? hc))
  obtain ⟨text, hline⟩ := Text.trim_append hbefore hstart hsign t
  obtain ⟨tail, hrest⟩ := Text.trim_append hgap hfirst hsign text
  have hthere : cut? (start ++ separator :: (gap ++ (word ++ '#' :: text))) =
      some (start, gap ++ (word ++ '#' :: text)) :=
    cut?_eq_some.mpr ⟨separator, rfl, fun c hc => hfree c (List.mem_append_right _ hc), hseparator⟩
  simp only [List.append_assoc, List.cons_append] at hline hcut
  rw [hline, hthere] at hcut
  obtain ⟨-, rfl⟩ := Prod.mk.inj (Option.some.inj hcut)
  rw [hrest] at hword
  refine number_sign_not_mem hword ?_
  rw [List.takeWhile_append_of_pos (by simpa using hin),
    List.takeWhile_cons_of_pos (by decide)]
  exact List.mem_append_right _ List.mem_cons_self

end ListingEntry

/-! ## 4. Lines within a listing -/

namespace Text

variable {s : String}

theorem lineFeed_not_mem_bytes (h : '\n' ∉ s.toList) : lineFeed ∉ bytes s := by
  rw [← String.ofList_toList (s := s), bytes_ofList]
  exact fun hmem => h (lineFeed_mem_bytes hmem)

theorem bytes_ne_nil (h : s.toList ≠ []) : bytes s ≠ [] := by
  intro hnil
  have hdecode := decode?_bytes s
  rw [hnil] at hdecode
  exact h (Option.some.inj (hdecode.symm.trans (decode?_bytes "")))

end Text

/-- A line may be exchanged for another one that says the same. -/
theorem Patch.applyLines_exchange {radix : Nat} {s s' : String}
    (h : ListingEntry.ofLine? radix s.toList = ListingEntry.ofLine? radix s'.toList)
    (before after : List (List UInt8)) (line : Nat) (p : Patch) :
    applyLines radix line (before ++ Text.bytes s :: after) p =
      applyLines radix line (before ++ Text.bytes s' :: after) p := by
  induction before generalizing line p with
  | nil =>
    rw [List.nil_append, List.nil_append, applyLines_cons (Text.decode?_bytes s),
      applyLines_cons (Text.decode?_bytes s')]
    unfold applyText
    rw [h]
  | cons bytes before ih =>
    by_cases hbytes : Text.IsText bytes
    · obtain ⟨text, htext⟩ := Text.isText_iff_decode?.mp hbytes
      rw [List.cons_append, List.cons_append, applyLines_cons htext, applyLines_cons htext]
      exact ih (line + 1) (applyText radix line text p)
    · rw [List.cons_append, List.cons_append, applyLines_of_not_isText hbytes,
        applyLines_of_not_isText hbytes]

namespace Rom

variable {radix : Nat} {line gap t : String} {front back : List UInt8}

theorem patch_exchange (rom : Rom) {s s' : String}
    (h : ListingEntry.ofLine? radix s.toList = ListingEntry.ofLine? radix s'.toList)
    (hs : '\n' ∉ s.toList) (hs' : '\n' ∉ s'.toList) (hne : s.toList ≠ []) (hne' : s'.toList ≠ [])
    (hfront : front = [] ∨ front.getLast? = some Text.lineFeed)
    (hback : back = [] ∨ back.head? = some Text.lineFeed) :
    rom.patch radix (front ++ (Text.bytes s ++ back)) =
      rom.patch radix (front ++ (Text.bytes s' ++ back)) := by
  have hlines : ∀ s : String, '\n' ∉ s.toList → s.toList ≠ [] →
      Text.lines (front ++ (Text.bytes s ++ back)) =
        Text.lines front ++ Text.bytes s :: Text.lines (back.drop 1) := by
    intro s hs hne
    rw [Text.lines_append_of_ends hfront,
      Text.lines_line_append (Text.lineFeed_not_mem_bytes hs) (Text.bytes_ne_nil hne) hback]
  unfold patch
  rw [hlines s hs hne, hlines s' hs' hne']
  exact Patch.applyLines_exchange h _ _ _ _

/-- **What a comment does to the line before it**, wherever in a listing the line stands.  Behind a
semicolon, or behind a number sign that follows a blank, any text leaves the image, the count, the
warnings and the error as they are without it.  A number sign right behind the word takes the word
away: the listing then has the effect that it has with a comment in place of the line. -/
theorem comment_inert (rom : Rom) {e : ListingEntry}
    (hentry : ListingEntry.ofLine? radix line.toList = some e)
    (hgap : ∀ c ∈ gap.toList, Text.isBlank c = true) (hline : '\n' ∉ (line ++ gap ++ t).toList)
    (hfront : front = [] ∨ front.getLast? = some Text.lineFeed)
    (hback : back = [] ∨ back.head? = some Text.lineFeed) :
    rom.patch radix (front ++ (Text.bytes (line ++ gap ++ ";" ++ t) ++ back)) =
      rom.patch radix (front ++ (Text.bytes line ++ back)) ∧
    (gap ≠ "" → rom.patch radix (front ++ (Text.bytes (line ++ gap ++ "#" ++ t) ++ back)) =
      rom.patch radix (front ++ (Text.bytes line ++ back))) ∧
    (ListingEntry.EndsInWord line.toList →
      rom.patch radix (front ++ (Text.bytes (line ++ "#" ++ t) ++ back)) =
        rom.patch radix (front ++ (Text.bytes "#" ++ back))) := by
  have hentry' := ListingEntry.ofLine?_eq_some.mp hentry
  have hne : line.toList ≠ [] := by
    intro hnil
    rw [hnil] at hentry
    cases hentry
  simp only [String.toList_append, List.mem_append, not_or] at hline
  obtain ⟨⟨hline, hbreak⟩, ht⟩ := hline
  have hcomment : ∀ mark : Char, Text.isBlank mark = false → '\n' ≠ mark →
      (gap.toList = [] → ListingEntry.endsWord mark = true) →
      rom.patch radix (front ++ (Text.bytes (line ++ gap ++ String.singleton mark ++ t) ++ back)) =
        rom.patch radix (front ++ (Text.bytes line ++ back)) := by
    intro mark hmark hfeed hends
    have hline' : '\n' ∉ (line ++ gap ++ String.singleton mark ++ t).toList := by
      simp [hline, hbreak, ht, hfeed]
    refine rom.patch_exchange ?_ hline' hline (by simp) hne hfront hback
    rw [hentry, ListingEntry.ofLine?_eq_some]
    simpa using hentry'.comment hgap hmark hends t.toList
  refine ⟨hcomment ';' (by decide) (by decide) fun _ => rfl, fun hblank => ?_, fun hword => ?_⟩
  · refine hcomment '#' (by decide) (by decide) fun hnil => ?_
    exact absurd (String.toList_eq_nil_iff.mp hnil) hblank
  · have hline' : '\n' ∉ (line ++ "#" ++ t).toList := by simp [hline, ht]
    refine rom.patch_exchange ?_ hline' (by decide) (by simp) (by decide) hfront hback
    have hlost := ListingEntry.ofLine?_number_sign radix hword t.toList
    have halone : ListingEntry.ofLine? radix "#".toList = none := rfl
    rw [halone]
    simpa using hlost

/-- Comments behind the second of three lines. -/
theorem comment_inert_loop :
    let listing (s : String) := Text.bytes "0:7\n" ++ (Text.bytes s ++ Text.bytes "\n3:1")
    (blank 4).patch 8 (listing ("1:2" ++ "" ++ ";" ++ " 2:6")) =
        (blank 4).patch 8 (listing "1:2") ∧
      (blank 4).patch 8 (listing ("1:2" ++ " " ++ "#" ++ " 2:6")) =
        (blank 4).patch 8 (listing "1:2") ∧
      (blank 4).patch 8 (listing ("1:2" ++ "#" ++ " 2:6")) = (blank 4).patch 8 (listing "#") := by
  intro listing
  have hentry : ListingEntry.ofLine? 8 "1:2".toList = some ⟨1, 2⟩ := by decide +kernel
  have hword : ListingEntry.EndsInWord "1:2".toList :=
    ⟨['1'], ':', [], ['2'], rfl, List.forall_mem_singleton.mpr rfl, rfl,
      List.forall_mem_nil _, List.forall_mem_singleton.mpr rfl⟩
  have hfront : (Text.bytes "0:7\n").getLast? = some Text.lineFeed := by decide +kernel
  have hback : (Text.bytes "\n3:1").head? = some Text.lineFeed := by decide +kernel
  have hspace : ∀ c ∈ " ".toList, Text.isBlank c = true := List.forall_mem_singleton.mpr rfl
  have hclose : '\n' ∉ ("1:2" ++ "" ++ " 2:6").toList := by decide +kernel
  have hapart : '\n' ∉ ("1:2" ++ " " ++ " 2:6").toList := by decide +kernel
  obtain ⟨hsemicolon, -, -⟩ :=
    comment_inert (blank 4) hentry (List.forall_mem_nil _) hclose (.inr hfront) (.inr hback)
  obtain ⟨-, hnumber, hlost⟩ :=
    comment_inert (blank 4) hentry hspace hapart (.inr hfront) (.inr hback)
  exact ⟨hsemicolon, hnumber (by decide +kernel), hlost hword⟩

/-- A number sign right behind the word does not leave the line as it is: the word is lost. -/
theorem number_sign_loses_word : ¬∀ (rom : Rom) (radix : Nat) (line t : String) (e : ListingEntry),
    ListingEntry.ofLine? radix line.toList = some e → '\n' ∉ (line ++ t).toList →
      rom.patch radix (Text.bytes (line ++ "#" ++ t)) = rom.patch radix (Text.bytes line) := by
  intro h
  have hsame := h (blank 4) 8 "1:2" "x" ⟨1, 2⟩ (by decide +kernel) (by decide +kernel)
  have hwritten := congrArg Patch.written hsame
  exact absurd hwritten (by decide +kernel)

end Rom

end Calculator

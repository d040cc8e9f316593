/-
# The lines of a text

A file is cut into lines at the line feeds: `lines_append` and `lines_of_not_mem` read it line by
line, and `lines_ended` puts lines together again.  Among the characters only the line feed has the
byte of a line feed in it (`mem_encode`), so that cutting the bytes of a text cuts no character, and
bytes are a text if and only if all their lines are (`isText_iff_lines`).
-/
import Calculator.Proofs.Utf8

namespace Calculator.Text

variable {line rest bs : List UInt8} {ls : List (List UInt8)} {c : Char} {cs : List Char}

/-! ## 1. Cutting at a byte -/

/-- Bytes are a piece, a separator and further bytes, or the separator is not in them. -/
@[elab_as_elim]
theorem cut_induction (separator : UInt8) {motive : List UInt8 → Prop}
    (last : ∀ bytes, separator ∉ bytes → motive bytes)
    (piece : ∀ piece rest, separator ∉ piece → motive rest → motive (piece ++ separator :: rest))
    (bytes : List UInt8) : motive bytes := by
  by_cases h : separator ∈ bytes
  · obtain ⟨front, rest, heq, hfront⟩ := List.eq_append_cons_of_mem h
    have hlt : rest.length < bytes.length := by
      rw [heq, List.length_append, List.length_cons]
      omega
    rw [heq]
    exact piece front rest hfront (cut_induction separator last piece rest)
  · exact last bytes h
termination_by bytes.length

theorem lines_append (h : lineFeed ∉ line) (rest : List UInt8) :
    lines (line ++ lineFeed :: rest) = line :: lines rest := by
  unfold lines
  rw [List.splitOn_append_cons_self_of_not_mem h]
  have hne : rest.splitOn lineFeed ≠ [] := List.splitOn_ne_nil lineFeed rest
  simp only [List.getLast?_cons_of_ne_nil hne, List.dropLast_cons_of_ne_nil hne]
  split <;> rfl

theorem lines_nil : lines [] = [] := rfl

theorem lines_of_not_mem (h : lineFeed ∉ line) (hne : line ≠ []) : lines line = [line] := by
  unfold lines
  rw [List.splitOn_eq_singleton h]
  exact if_neg (by simpa using hne)

/-- What follows a line feed begins a line of its own. -/
theorem lines_append_of_ends {front : List UInt8}
    (h : front = [] ∨ front.getLast? = some lineFeed) (rest : List UInt8) :
    lines (front ++ rest) = lines front ++ lines rest := by
  induction front using cut_induction lineFeed with
  | last bytes hmem =>
    rcases h with rfl | hlast
    · rfl
    · exact absurd (List.mem_of_getLast? hlast) hmem
  | piece piece front hmem ih =>
    have hends : front = [] ∨ front.getLast? = some lineFeed := by
      rcases front with _ | ⟨b, front⟩
      · exact .inl rfl
      · simpa using h
    rw [List.append_assoc, List.cons_append, lines_append hmem, lines_append hmem, ih hends]
    rfl

/-- A line that is not empty, up to the next line feed if there is one. -/
theorem lines_line_append (h : lineFeed ∉ line) (hne : line ≠ [])
    (hrest : rest = [] ∨ rest.head? = some lineFeed) :
    lines (line ++ rest) = line :: lines (rest.drop 1) := by
  rcases rest with _ | ⟨b, rest⟩
  · rw [List.append_nil]
    exact lines_of_not_mem h hne
  · obtain rfl : b = lineFeed := by simpa using hrest
    exact lines_append h rest

theorem lineFeed_not_mem_of_mem_lines (h : line ∈ lines bs) : lineFeed ∉ line := by
  induction bs using cut_induction lineFeed with
  | last bytes hmem =>
    by_cases hne : bytes = []
    · rw [hne, lines_nil] at h
      cases h
    · rw [lines_of_not_mem hmem hne, List.mem_singleton] at h
      exact h ▸ hmem
  | piece piece rest hmem ih =>
    rw [lines_append hmem] at h
    rcases List.mem_cons.mp h with rfl | hrest
    · exact hmem
    · exact ih hrest

/-- Lines with a line feed after each. -/
def ended (ls : List (List UInt8)) : List UInt8 := ls.flatMap (· ++ [lineFeed])

theorem lines_ended (h : ∀ line ∈ ls, lineFeed ∉ line) : lines (ended ls) = ls := by
  induction ls with
  | nil => rfl
  | cons line ls ih =>
    obtain ⟨hline, hls⟩ := List.forall_mem_cons.mp h
    have hcons : ended (line :: ls) = line ++ lineFeed :: ended ls := by simp [ended]
    rw [hcons, lines_append hline, ih hls]

/-! ## 2. The lines of a text are texts -/

/-- The bytes are those of a text. -/
def IsText (bs : List UInt8) : Prop := ∃ s, bytes s = bs

theorem isText_iff_decode? : IsText bs ↔ ∃ cs, decode? bs = some cs := by
  constructor
  · rintro ⟨s, rfl⟩
    exact ⟨s.toList, decode?_bytes s⟩
  · rintro ⟨cs, hcs⟩
    exact ⟨String.ofList cs, decode?_eq_some hcs⟩

/-- A byte of seven bits stands for the character of its number only. -/
theorem mem_encode {b : UInt8} (hb : b.toNat < 0x80) (h : b ∈ String.utf8EncodeChar c) :
    c.toNat = b.toNat := by
  rw [String.utf8EncodeChar.eq_1] at h
  split at h
  · rw [List.mem_singleton.mp h, UInt8.toNat_ofNat', Nat.mod_eq_of_lt (by omega)]
    rfl
  · -- the bytes of the longer encodings have their high bit set
    exfalso
    repeat' split at h
    all_goals
      simp only [List.mem_cons, List.not_mem_nil, or_false] at h
      rcases h with rfl | rfl | rfl | rfl <;> rw [UInt8.toNat_ofNat'] at hb <;> omega

theorem lineFeed_mem_bytes (h : lineFeed ∈ cs.flatMap String.utf8EncodeChar) : '\n' ∈ cs := by
  obtain ⟨c, hc, hmem⟩ := List.mem_flatMap.mp h
  have hnumber : c.toNat = 10 := mem_encode (by decide) hmem
  have hfeed : c = '\n' := Char.toNat_inj.mp hnumber
  exact hfeed ▸ hc

theorem isText_append (hmem : lineFeed ∉ line) :
    IsText (line ++ lineFeed :: rest) ↔ IsText line ∧ IsText rest := by
  have hfeed : ∀ xs ys : List Char, (xs ++ '\n' :: ys).flatMap String.utf8EncodeChar =
      xs.flatMap String.utf8EncodeChar ++ lineFeed :: ys.flatMap String.utf8EncodeChar := by
    intro xs ys
    rw [List.flatMap_append, List.flatMap_cons]
    rfl
  constructor
  · rintro ⟨s, hs⟩
    rw [← String.ofList_toList (s := s), bytes_ofList] at hs
    have hin : '\n' ∈ s.toList := lineFeed_mem_bytes (hs ▸ by simp)
    obtain ⟨xs, ys, heq, hxs⟩ := List.eq_append_cons_of_mem hin
    rw [heq, hfeed] at hs
    have hpieces := congrArg (List.splitOn lineFeed) hs
    rw [List.splitOn_append_cons_self_of_not_mem fun h => hxs (lineFeed_mem_bytes h),
      List.splitOn_append_cons_self_of_not_mem hmem] at hpieces
    have hline := (List.cons.inj hpieces).1
    have hrest := (List.cons.inj (List.append_cancel_left (hline ▸ hs))).2
    exact ⟨⟨String.ofList xs, (bytes_ofList xs).trans hline⟩,
      ⟨String.ofList ys, (bytes_ofList ys).trans hrest⟩⟩
  · rintro ⟨⟨s, rfl⟩, ⟨t, rfl⟩⟩
    refine ⟨s ++ "\n" ++ t, ?_⟩
    rw [bytes_append, bytes_append, List.append_assoc]
    rfl

/-- **Bytes are a text if and only if all their lines are.** -/
theorem isText_iff_lines : IsText bs ↔ ∀ line ∈ lines bs, IsText line := by
  induction bs using cut_induction lineFeed with
  | last bytes hmem =>
    by_cases hne : bytes = []
    · rw [hne, lines_nil]
      exact ⟨fun _ line h => absurd h List.not_mem_nil, fun _ => ⟨"", rfl⟩⟩
    · rw [lines_of_not_mem hmem hne, List.forall_mem_singleton]
  | piece piece rest hmem ih =>
    rw [lines_append hmem, List.forall_mem_cons, isText_append hmem, ih]

end Calculator.Text

/-
# The fields of a record

A field is what stands before a comma.  `ReadsAs` says what it is for a field to stand for a number,
and `fieldValue?_eq_some` that this is what the reader finds.  The white space that the reader drops
ahead of a field makes no difference (`fieldValue?_gap_append`), so that it reads one field after
the other as if the bytes had been cut at the commas: `next?_field` and `next?_eq_none`.
-/
import Calculator.Proofs.TextLines
import Calculator.Record

namespace Calculator

/-! ## 1. What a field stands for -/

/-- The bytes are a text, and the text between its outer blanks is an optional plus sign and then a
number below 256 in hexadecimal digits. -/
def ReadsAs (field : List UInt8) (v : Nat) : Prop :=
  ∃ (text : String) (digits : List Char) (values : List Nat),
    Text.bytes text = field ∧
      (Text.trim text.toList = digits ∨ Text.trim text.toList = '+' :: digits) ∧
      digits ≠ [] ∧ digits.map (Text.digitValue? 16) = values.map some ∧
      v = Text.valueOf 16 values ∧ v < 0x100

namespace Text

theorem mapM_eq_some {α β : Type} {f : α → Option β} {xs : List α} {ys : List β} :
    xs.mapM f = some ys ↔ xs.map f = ys.map some := by
  induction xs generalizing ys with
  | nil => cases ys <;> simp
  | cons x xs ih =>
    have hcons : (x :: xs).mapM f = some ys ↔ ∃ y, f x = some y ∧ ∃ zs, xs.mapM f = some zs ∧
        y :: zs = ys := by
      rw [List.mapM_cons]
      simp [Option.bind_eq_some_iff]
    rw [hcons]
    cases ys with
    | nil => simp
    | cons y ys =>
      simp only [List.map_cons, List.cons.injEq, ← ih]
      constructor
      · rintro ⟨_, hx, _, hxs, rfl, rfl⟩
        exact ⟨hx, hxs⟩
      · rintro ⟨hx, hxs⟩
        exact ⟨y, hx, ys, hxs, rfl, rfl⟩

/-- A digit is no plus sign. -/
theorem unsigned_of_digit {radix d : Nat} {c : Char} {cs : List Char}
    (h : digitValue? radix c = some d) : unsigned (c :: cs) = c :: cs := by
  have hplus : c ≠ '+' := by
    rintro rfl
    simp [digitValue?] at h
  unfold unsigned
  split
  · rename_i heq
    exact absurd (List.cons.inj heq).1 hplus
  · rfl

/-- A text reads as a number if it is a plus sign or nothing, and then digits. -/
theorem numeral?_eq_some {radix limit v : Nat} {cs : List Char} :
    numeral? radix limit cs = some v ↔
      ∃ digits values, (cs = digits ∨ cs = '+' :: digits) ∧ digits ≠ [] ∧
        digits.map (digitValue? radix) = values.map some ∧ v = valueOf radix values ∧
        v < limit := by
  constructor
  · intro h
    have hcs : cs = unsigned cs ∨ cs = '+' :: unsigned cs := by
      unfold unsigned
      split
      · exact .inr rfl
      · exact .inl rfl
    refine ⟨unsigned cs, ?_⟩
    unfold numeral? at h
    split at h
    · cases h
    · rename_i hne
      obtain ⟨hmap, hlt⟩ := Option.filter_eq_some_iff.mp h
      obtain ⟨values, hvalues, rfl⟩ := Option.map_eq_some_iff.mp hmap
      exact ⟨values, hcs, hne, mapM_eq_some.mp hvalues, rfl, by simpa using hlt⟩
  · rintro ⟨digits, values, hcs, hne, hvalues, rfl, hlt⟩
    have hunsigned : unsigned cs = digits := by
      rcases hcs with rfl | rfl
      · cases cs with
        | nil => rfl
        | cons c cs =>
          cases values with
          | nil => cases hvalues
          | cons d ds => exact unsigned_of_digit (List.cons.inj hvalues).1
      · rfl
    unfold numeral?
    rw [hunsigned]
    split
    · exact absurd rfl hne
    · rw [mapM_eq_some.mpr hvalues]
      simp [Option.filter, hlt]

end Text

/-- **A field has a value if it stands for it.** -/
theorem fieldValue?_eq_some {field : List UInt8} {v : Nat} :
    Record.fieldValue? field = some v ↔ ReadsAs field v := by
  have hbind : Record.fieldValue? field = some v ↔ ∃ cs, Text.decode? field = some cs ∧
      Text.numeral? 16 0x100 (Text.trim cs) = some v := by
    unfold Record.fieldValue?
    exact Option.bind_eq_some_iff
  rw [hbind]
  constructor
  · rintro ⟨cs, hdecode, hnumeral⟩
    obtain ⟨digits, values, hrest⟩ := Text.numeral?_eq_some.mp hnumeral
    refine ⟨String.ofList cs, digits, values, Text.decode?_eq_some hdecode, ?_⟩
    rw [String.toList_ofList]
    exact hrest
  · rintro ⟨text, digits, values, rfl, hrest⟩
    exact ⟨text.toList, Text.decode?_bytes text, Text.numeral?_eq_some.mpr ⟨digits, values, hrest⟩⟩

theorem ReadsAs.unique {field : List UInt8} {v w : Nat} (hv : ReadsAs field v)
    (hw : ReadsAs field w) : v = w :=
  Option.some.inj ((fieldValue?_eq_some.mpr hv).symm.trans (fieldValue?_eq_some.mpr hw))

/-! ## 2. White space ahead of a field -/

namespace Record

/-- The bytes that are dropped ahead of a field are blank characters. -/
theorem exists_blank {b : UInt8} (h : isGap b = true) :
    ∃ c, String.utf8EncodeChar c = [b] ∧ Text.isBlank c = true := by
  simp only [isGap, Bool.or_eq_true, beq_iff_eq] at h
  rcases h with (((rfl | rfl) | rfl) | rfl) | rfl
  · exact ⟨' ', Text.encode_of_utf8Size (by decide), by decide⟩
  · exact ⟨'\t', Text.encode_of_utf8Size (by decide), by decide⟩
  · exact ⟨'\n', Text.encode_of_utf8Size (by decide), by decide⟩
  · exact ⟨'\u000c', Text.encode_of_utf8Size (by decide), by decide⟩
  · exact ⟨'\r', Text.encode_of_utf8Size (by decide), by decide⟩

theorem fieldValue?_cons_gap {b : UInt8} (h : isGap b = true) (field : List UInt8) :
    fieldValue? (b :: field) = fieldValue? field := by
  obtain ⟨c, hencode, hblank⟩ := exists_blank h
  have htrim : ∀ cs, Text.trim (c :: cs) = Text.trim cs := by
    intro cs
    unfold Text.trim
    rw [List.dropWhile_cons_of_pos hblank]
  have hdecode : Text.decode? (b :: field) = (Text.decode? field).map (c :: ·) := by
    rw [← Text.decode?_char_append, hencode]
    rfl
  unfold fieldValue?
  rw [hdecode]
  cases Text.decode? field with
  | none => rfl
  | some cs => exact congrArg (Text.numeral? 16 0x100) (htrim cs)

theorem fieldValue?_gap_append {gap : List UInt8} (h : ∀ b ∈ gap, isGap b = true)
    (field : List UInt8) : fieldValue? (gap ++ field) = fieldValue? field := by
  induction gap with
  | nil => rfl
  | cons b gap ih =>
    obtain ⟨hb, hgap⟩ := List.forall_mem_cons.mp h
    rw [List.cons_append, fieldValue?_cons_gap hb, ih hgap]

theorem fieldValue?_dropWhile (field : List UInt8) :
    fieldValue? (field.dropWhile isGap) = fieldValue? field := by
  have hgap : ∀ b ∈ field.takeWhile isGap, isGap b = true := List.all_eq_true.mp List.all_takeWhile
  rw [← fieldValue?_gap_append hgap, List.takeWhile_append_dropWhile]

/-! ## 3. Field after field -/

/-- The next field is what stands before the first comma. -/
theorem next?_field {field : List UInt8} (h : comma ∉ field) (rest : List UInt8) :
    next? (field ++ comma :: rest) = (fieldValue? field).map fun v => (v, rest) := by
  have hgap : (field ++ comma :: rest).dropWhile isGap
      = field.dropWhile isGap ++ comma :: rest := by
    rw [List.dropWhile_append, List.dropWhile_cons_of_neg (by decide)]
    split
    · rename_i hempty
      rw [List.isEmpty_iff.mp hempty, List.nil_append]
    · rfl
  have hne : ∀ b ∈ field.dropWhile isGap, decide (b ≠ comma) = true := by
    intro b hb
    rw [decide_eq_true_eq]
    rintro rfl
    exact h ((List.dropWhile_sublist _).subset hb)
  unfold next?
  simp only [hgap]
  rw [List.dropWhile_append_of_pos hne, List.takeWhile_append_of_pos hne,
    List.dropWhile_cons_of_neg (by simp), List.takeWhile_cons_of_neg (by simp), List.append_nil,
    fieldValue?_dropWhile]

/-- Without a comma there is no field. -/
theorem next?_eq_none {bytes : List UInt8} (h : comma ∉ bytes) : next? bytes = none := by
  have hne : ∀ b ∈ bytes.dropWhile isGap, decide (b ≠ comma) = true := by
    intro b hb
    rw [decide_eq_true_eq]
    rintro rfl
    exact h ((List.dropWhile_sublist _).subset hb)
  have hall : (bytes.dropWhile isGap).dropWhile (fun b => decide (b ≠ comma)) = [] := by
    rw [← List.append_nil (bytes.dropWhile isGap), List.dropWhile_append_of_pos hne]
    rfl
  unfold next?
  simp only [hall]

/-- The fields of a record: the pieces that a comma ends. -/
def fields (bytes : List UInt8) : List (List UInt8) := (bytes.splitOn comma).dropLast

theorem fields_of_not_mem {bytes : List UInt8} (h : comma ∉ bytes) : fields bytes = [] := by
  unfold fields
  rw [List.splitOn_eq_singleton h]
  rfl

theorem fields_append {field : List UInt8} (h : comma ∉ field) (rest : List UInt8) :
    fields (field ++ comma :: rest) = field :: fields rest := by
  unfold fields
  rw [List.splitOn_append_cons_self_of_not_mem h,
    List.dropLast_cons_of_ne_nil (List.splitOn_ne_nil comma rest)]

/-- Bytes are a field, a comma and further bytes, or there is no comma in them. -/
@[elab_as_elim]
theorem fields_induction {motive : List UInt8 → Prop}
    (last : ∀ bytes, comma ∉ bytes → motive bytes)
    (field : ∀ field rest, comma ∉ field → motive rest → motive (field ++ comma :: rest))
    (bytes : List UInt8) : motive bytes :=
  Text.cut_induction comma last field bytes

/-- There are as many fields as there are commas. -/
theorem length_fields (bytes : List UInt8) : (fields bytes).length = bytes.count comma := by
  induction bytes using fields_induction with
  | last bytes h =>
    rw [fields_of_not_mem h, List.count_eq_zero_of_not_mem h]
    rfl
  | field field rest h ih =>
    rw [fields_append h, List.length_cons, ih, List.count_append, List.count_cons_self,
      List.count_eq_zero_of_not_mem h]
    omega

/-- The fields of a part are the first fields of the whole. -/
theorem fields_prefix (bytes rest : List UInt8) : fields bytes <+: fields (bytes ++ rest) := by
  induction bytes using fields_induction with
  | last bytes h =>
    rw [fields_of_not_mem h]
    exact List.nil_prefix
  | field field bytes h ih =>
    rw [List.append_assoc, List.cons_append, fields_append h, fields_append h,
      List.cons_prefix_cons]
    exact ⟨rfl, ih⟩

end Record

end Calculator

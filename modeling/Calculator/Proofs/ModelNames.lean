/-
# The names of the models

A model answers to its number, with the `hp` of its name before it or not, and with a hyphen before
the number or not (`Spelled`).  A name is read by dropping first the one and then the other, which
goes well because no number begins with either of them, and no number is that of two models
(`find?_number`).  So a text is read as a model just where it spells the model, once the blanks
around it are gone and its letters are small, and every other text comes back as it was
(`parse_reads_spellings`).
-/
import Calculator.Diagnostic

namespace Calculator.Model

/-! ## 1. Spellings -/

/-- The text spells the name of the model: its number, behind a hyphen or not, and behind `hp` or
not. -/
def Spelled (m : Model) (cs : List Char) : Prop :=
  ∃ maker hyphen : List Char, (maker = [] ∨ maker = ['h', 'p']) ∧ (hyphen = [] ∨ hyphen = ['-']) ∧
    cs = maker ++ (hyphen ++ m.name.toList.drop 2)

/-- A text without the blanks around it, and with small letters for the capitals of ASCII. -/
def plain (s : String) : List Char := (Text.trim s.toList).map Char.toLower

variable {m m' : Model} {c x : Char} {lead cs : List Char} {s : String}

theorem drop_name (m : Model) : m.name.toList.drop 2 = m.number.toList := by
  rw [name, String.toList_append]
  rfl

/-- A number begins neither like `hp` nor with a hyphen. -/
theorem exists_number_eq_cons (m : Model) :
    ∃ c cs, m.number.toList = c :: cs ∧ c ≠ 'h' ∧ c ≠ '-' := by
  cases m <;> exact ⟨_, _, rfl, by decide, by decide⟩

/-- No two models have the same number. -/
theorem find?_number (m : Model) :
    all.find? (fun m' => m'.number.toList == m.number.toList) = some m := by
  cases m <;> rfl

theorem number_injective (h : m.number.toList = m'.number.toList) : m = m' := by
  have hfound := find?_number m
  rw [h, find?_number m'] at hfound
  exact (Option.some.inj hfound).symm

/-! ## 2. Dropping what stands before the number -/

theorem dropLead_append (lead cs : List Char) : dropLead lead (lead ++ cs) = cs := by
  rw [dropLead, if_pos (List.isPrefixOf_iff_prefix.mpr (lead.prefix_append cs)), List.drop_left]

theorem dropLead_eq_self (h : ¬lead <+: cs) : dropLead lead cs = cs := by
  rw [dropLead, if_neg (mt List.isPrefixOf_iff_prefix.mp h)]

theorem dropLead_cons_of_ne (h : c ≠ x) : dropLead (c :: lead) (x :: cs) = x :: cs := by
  refine dropLead_eq_self ?_
  rw [List.cons_prefix_cons]
  exact fun hlead => h hlead.1

/-- What is left was all there was, or stood behind the lead. -/
theorem eq_or_eq_append_dropLead (lead cs : List Char) :
    cs = dropLead lead cs ∨ cs = lead ++ dropLead lead cs := by
  by_cases h : lead <+: cs
  · obtain ⟨rest, rfl⟩ := h
    exact .inr (by rw [dropLead_append])
  · exact .inl (dropLead_eq_self h).symm

/-- Where there is no `hp`, none is dropped, be it from the number or from the hyphen. -/
theorem dropLead_maker {maker hyphen : List Char} (hm : maker = [] ∨ maker = ['h', 'p'])
    (hh : hyphen = [] ∨ hyphen = ['-']) :
    dropLead ['h', 'p'] (maker ++ (hyphen ++ m.number.toList)) = hyphen ++ m.number.toList := by
  obtain ⟨c, number, hnumber, hmaker, -⟩ := m.exists_number_eq_cons
  rcases hm with rfl | rfl
  · rcases hh with rfl | rfl
    · rw [hnumber]
      exact dropLead_cons_of_ne hmaker.symm
    · exact dropLead_cons_of_ne (by decide)
  · exact dropLead_append _ _

theorem dropLead_hyphen {hyphen : List Char} (hh : hyphen = [] ∨ hyphen = ['-']) :
    dropLead ['-'] (hyphen ++ m.number.toList) = m.number.toList := by
  obtain ⟨c, number, hnumber, -, hhyphen⟩ := m.exists_number_eq_cons
  rcases hh with rfl | rfl
  · rw [hnumber]
    exact dropLead_cons_of_ne hhyphen.symm
  · exact dropLead_append _ _

/-- **Dropping the `hp` and the hyphen leaves the number of the model that is spelled.** -/
theorem spelled_iff : m.Spelled cs ↔ dropLead ['-'] (dropLead ['h', 'p'] cs) = m.number.toList := by
  unfold Spelled
  rw [drop_name]
  constructor
  · rintro ⟨maker, hyphen, hm, hh, rfl⟩
    rw [dropLead_maker hm hh, dropLead_hyphen hh]
  · intro h
    obtain ⟨hyphen, hh, hrest⟩ : ∃ hyphen : List Char, (hyphen = [] ∨ hyphen = ['-']) ∧
        dropLead ['h', 'p'] cs = hyphen ++ m.number.toList := by
      rcases eq_or_eq_append_dropLead ['-'] (dropLead ['h', 'p'] cs) with hrest | hrest
      · exact ⟨[], .inl rfl, hrest.trans h⟩
      · exact ⟨['-'], .inr rfl, hrest.trans (congrArg _ h)⟩
    rcases eq_or_eq_append_dropLead ['h', 'p'] cs with hcs | hcs
    · exact ⟨[], hyphen, .inl rfl, hh, hcs.trans hrest⟩
    · exact ⟨['h', 'p'], hyphen, .inr rfl, hh, hcs.trans (congrArg _ hrest)⟩

/-- No text spells two models. -/
theorem Spelled.unique (h : m.Spelled cs) (h' : m'.Spelled cs) : m = m' :=
  number_injective ((spelled_iff.mp h).symm.trans (spelled_iff.mp h'))

/-! ## 3. Reading -/

theorem ofName?_eq_some_iff : ofName? s = some m ↔ m.Spelled (plain s) := by
  rw [spelled_iff]
  constructor
  · intro h
    unfold ofName? at h
    have hnumber := List.find?_some h
    exact (eq_of_beq hnumber).symm
  · intro h
    have hfound := find?_number m
    rwa [← h] at hfound

theorem ofName?_eq_none_iff : ofName? s = none ↔ ∀ m : Model, ¬m.Spelled (plain s) := by
  simp only [← ofName?_eq_some_iff]
  cases ofName? s with
  | none => simp
  | some m => simp

/-- The name of a model is one of its spellings, and there is nothing about it to be made plain. -/
theorem spelled_name (m : Model) : m.Spelled (plain m.name) := by
  have hplain : plain m.name = m.name.toList := by cases m <;> rfl
  refine ⟨['h', 'p'], [], .inr rfl, .inl rfl, ?_⟩
  rw [hplain, drop_name, name, String.toList_append]
  rfl

/-- **Names are read exactly.**  A text is read as a model if and only if, without the blanks around
it and in small letters, it spells the name of the model; no text spells two; any other text is
refused, and the error has it as it was given; and the name that a model is shown by is read as that
model. -/
theorem parse_reads_spellings :
    (∀ s m, Model.parse s = .ok m ↔ m.Spelled (plain s)) ∧
    (∀ (cs : List Char) (m m' : Model), m.Spelled cs → m'.Spelled cs → m = m') ∧
    (∀ s e, Model.parse s = .error e ↔
      (∀ m : Model, ¬m.Spelled (plain s)) ∧ e = .unknownModel s) ∧
    ∀ m : Model, Model.parse m.name = .ok m := by
  have hread : ∀ s m, Model.parse s = .ok m ↔ m.Spelled (plain s) := by
    intro s m
    rw [← ofName?_eq_some_iff, Model.parse]
    cases ofName? s <;> simp
  refine ⟨hread, fun _ _ _ => Spelled.unique, ?_, fun m => (hread _ m).mpr m.spelled_name⟩
  intro s e
  rw [← ofName?_eq_none_iff, Model.parse]
  cases ofName? s <;> simp [eq_comm]

/-- Blanks, capitals and a hyphen, and a number that is no model's. -/
theorem parse_reads_spellings_hyphen :
    Model.parse "\tHP-67 " = .ok .hp67 ∧
      (∀ m : Model, m.Spelled ['h', 'p', '-', '6', '7'] → m = .hp67) ∧
      Model.parse " hp-99" = .error (.unknownModel " hp-99") := by
  obtain ⟨hread, hone, -, -⟩ := parse_reads_spellings
  have hspelled : Model.hp67.Spelled ['h', 'p', '-', '6', '7'] :=
    ⟨['h', 'p'], ['-'], .inr rfl, .inr rfl, rfl⟩
  exact ⟨(hread _ _).mpr hspelled, fun m hm => hone _ m _ hm hspelled, rfl⟩

end Calculator.Model

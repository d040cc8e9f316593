/-
# The line that the printer prints

The printer keeps its line in twenty cells and writes them from right to left.  Its head may move
back by one where a number follows on a blank, and it may stop at the left end in the middle of a
register.  To whoever calls it all this is a list of codes in the order in which they were written,
at most twenty of them, and a queue of lines (`Line`).

`Shows` relates the cells to the list.  Each call keeps the relation and gets the same reply from
both, and `printer_refines_line` says it of every sequence of calls.
-/
import Calculator.Proofs.Digits
import Mathlib.Data.Nat.Digits.Defs

namespace Calculator

/-! ## 1. The codes in a register -/

/-- The number that the digits of a register stand for. -/
def Register.value (r : Register) : Nat := Nat.ofDigits 0x10 r.digits.toList

/-- The codes packed into a register: six bits each, from the lower end on. -/
def Register.codes (r : Register) : List Nat :=
  (List.range 9).map fun k => r.value / 64 ^ k % 64

theorem Register.FourBit.fourBits {r : Register} (h : r.FourBit) : FourBits r.digits.toList := by
  intro d hd
  obtain ⟨i, hi, rfl⟩ := List.mem_iff_getElem.mp hd
  rw [Vector.getElem_toList]
  exact r.digit_of_lt (by simpa using hi) ▸ h i

namespace Printer

/-- Three digits hold two codes. -/
theorem unpack_eq {ds : List Nat} (h : FourBits ds) :
    unpack ds = (List.range (ds.length * 2 / 3)).map fun k =>
      Nat.ofDigits 0x10 ds / 64 ^ k % 64 := by
  induction ds using unpack.induct with
  | case1 low middle high rest ih =>
    simp only [FourBits, List.forall_mem_cons] at h
    obtain ⟨hlow, hmiddle, hhigh, hrest⟩ := h
    have hlength : (rest.length + 1 + 1 + 1) * 2 / 3 = rest.length * 2 / 3 + 1 + 1 := by omega
    have hskip : ∀ n k, (low + 0x10 * (middle + 0x10 * (high + 0x10 * n))) / 64 ^ (k + 1 + 1) =
        n / 64 ^ k := by
      intro n k
      rw [Nat.pow_succ', Nat.pow_succ', ← Nat.div_div_eq_div_mul, ← Nat.div_div_eq_div_mul]
      congr 1
      omega
    simp only [unpack, ih hrest, List.length_cons, hlength, List.range_succ_eq_map, List.map_cons,
      List.map_map, Function.comp_def, Nat.succ_eq_add_one, Nat.ofDigits_cons, hskip, pow_zero,
      zero_add, pow_one, List.cons.injEq, and_true]
    omega
  | case2 low middle =>
    simp only [FourBits, List.forall_mem_cons] at h
    obtain ⟨hlow, hmiddle, -⟩ := h
    have hone : [low, middle].length * 2 / 3 = 1 := by simp
    rw [hone, List.range_one, List.map_singleton, Nat.ofDigits_cons, Nat.ofDigits_singleton, unpack]
    simp only [pow_zero, List.cons.injEq, and_true]
    omega
  | case3 ds hmany htwo =>
    match ds, hmany, htwo with
    | [], _, _ | [_], _, _ => simp [unpack]
    | [low, middle], _, htwo => exact absurd rfl (htwo low middle)
    | low :: middle :: high :: rest, hmany, _ => exact absurd rfl (hmany low middle high rest)

/-- **Text comes out of a register six bits at a time.** -/
theorem unpack_digits {r : Register} (h : r.FourBit) : unpack r.digits.toList = r.codes := by
  rw [unpack_eq h.fourBits, Vector.length_toList]
  rfl

end Printer

/-! ## 2. Calls -/

namespace Printer

/-- What can be asked of a printer. -/
inductive Call where
  | numeric (r : Register)
  | alpha (r : Register)
  | flush
  | reset
  | take
  deriving DecidableEq

/-- What comes back. -/
inductive Reply where
  | done
  /-- Whether all that was to be written found room. -/
  | written (all : Bool)
  /-- The printed lines that were handed out. -/
  | lines (texts : List String)
  deriving DecidableEq

/-- The digits in the register of the call have four bits. -/
def Call.FourBit : Call → Prop
  | numeric r | alpha r => r.FourBit
  | flush | reset | take => True

/-- The printed lines in a reply. -/
def Reply.texts : Reply → List String
  | lines texts => texts
  | done | written _ => []

/-- The printer after a call, and its reply. -/
def answer (p : Printer) : Call → Printer × Reply
  | .numeric r => ((p.printNumeric r).1, .written (p.printNumeric r).2)
  | .alpha r => ((p.printAlpha r).1, .written (p.printAlpha r).2)
  | .flush => (p.flush, .done)
  | .reset => (p.reset, .done)
  | .take => (p.take.2, .lines p.take.1)

/-- Makes one call after the other, and collects the replies. -/
def serve {σ : Type} (answer : σ → Call → σ × Reply) (s : σ) : List Call → σ × List Reply
  | [] => (s, [])
  | call :: calls =>
    let (s, reply) := answer s call
    let (s, replies) := serve answer s calls
    (s, reply :: replies)

end Printer

/-! ## 3. The line -/

/-- The line as those see it who write on it. -/
@[ext] structure Line where
  /-- The codes on the line, in the order in which they were written. -/
  written : List Nat
  /-- There is room for twenty codes. -/
  length_le : written.length ≤ 20
  /-- The printed lines that were not taken, the oldest first. -/
  queue : List String

namespace Line

open Printer (blank character Call Reply serve)

variable (l : Line)

/-- A line with nothing on it, and nothing printed. -/
def empty : Line := ⟨[], Nat.zero_le 20, []⟩

/-- How many more codes there is room for. -/
def room : Nat := 20 - l.written.length

/-- Appends codes while there is room, and tells whether all of them found room. -/
def append (codes : List Nat) : Line × Bool where
  fst :=
    { l with
      written := l.written ++ codes.take l.room
      length_le := by
        have hle := l.length_le
        rw [List.length_append, List.length_take, room]
        omega }
  snd := decide (codes.length ≤ l.room)

/-- Takes the last code back if it is a blank. -/
def dropBlank : Line :=
  if l.written.getLast? = some blank then
    { l with
      written := l.written.dropLast
      length_le := by
        have hle := l.length_le
        rw [List.length_dropLast]
        omega }
  else l

/-- The codes of the digits of a register, up to the first fifteen. -/
def digitCodes (r : Register) : List Nat :=
  (r.digits.toList.takeWhile (· ≠ 15)).map fun d => 4 * d + 3

/-- The codes packed into a register, up to and with the first blank. -/
def textCodes (r : Register) : List Nat := r.codes.take (r.codes.findIdx (· = blank) + 1)

/-- Writes a number, in the place of a blank if there is one. -/
def printNumeric (r : Register) : Line × Bool := l.dropBlank.append (digitCodes r)

/-- Writes text. -/
def printAlpha (r : Register) : Line × Bool := l.append (textCodes r)

/-- What is printed: the characters from right to left, and spaces to the left of them. -/
def text : String :=
  String.ofList (List.replicate l.room ' ' ++ (l.written.map character).reverse)

/-- Empties the line. -/
def reset : Line := { l with written := [], length_le := Nat.zero_le 20 }

/-- Prints the line, unless there is nothing on it. -/
def flush : Line := if l.written = [] then l else { l.reset with queue := l.queue ++ [l.text] }

/-- The printed lines, and the line without them. -/
def take : List String × Line := (l.queue, { l with queue := [] })

variable {l}

theorem room_add_length (l : Line) : l.room + l.written.length = 20 := by
  have hle := l.length_le
  unfold room
  omega

/-- **A printed line has twenty characters**, however little was written on it. -/
theorem length_text (l : Line) : l.text.length = 20 := by
  have hroom := l.room_add_length
  unfold text
  rw [String.length_ofList]
  simpa using hroom

theorem append_nil (l : Line) : l.append [] = (l, true) := by
  refine Prod.ext (Line.ext ?_ rfl) rfl
  exact (congrArg (l.written ++ ·) List.take_nil).trans l.written.append_nil

theorem append_of_room_eq_zero (h : l.room = 0) (code : Nat) (codes : List Nat) :
    l.append (code :: codes) = (l, false) := by
  refine Prod.ext (Line.ext ?_ rfl) ?_
  · show l.written ++ (code :: codes).take l.room = l.written
    rw [h, List.take_zero, List.append_nil]
  · exact decide_eq_false (by simp [h])

theorem written_append_singleton (h : 0 < l.room) (code : Nat) :
    (l.append [code]).1.written = l.written ++ [code] := by
  show l.written ++ [code].take l.room = l.written ++ [code]
  rw [List.take_of_length_le h]

theorem room_append_singleton (h : 0 < l.room) (code : Nat) :
    (l.append [code]).1.room + 1 = l.room := by
  have hbefore := l.room_add_length
  have hafter := (l.append [code]).1.room_add_length
  rw [written_append_singleton h, List.length_append, List.length_singleton] at hafter
  omega

/-- Codes are appended one after the other. -/
theorem append_cons (h : 0 < l.room) (code : Nat) (codes : List Nat) :
    l.append (code :: codes) = (l.append [code]).1.append codes := by
  have hroom := room_append_singleton h code
  refine Prod.ext (Line.ext ?_ rfl) ?_
  · show l.written ++ (code :: codes).take l.room =
      (l.append [code]).1.written ++ codes.take (l.append [code]).1.room
    rw [← hroom, written_append_singleton h, List.take_succ_cons, List.append_assoc]
    rfl
  · show decide ((code :: codes).length ≤ l.room) =
      decide (codes.length ≤ (l.append [code]).1.room)
    rw [← hroom, List.length_cons, decide_eq_decide]
    exact Nat.add_le_add_iff_right

/-! ### Calls -/

/-- The line after a call, and its reply. -/
def answer (l : Line) : Call → Line × Reply
  | .numeric r => ((l.printNumeric r).1, .written (l.printNumeric r).2)
  | .alpha r => ((l.printAlpha r).1, .written (l.printAlpha r).2)
  | .flush => (l.flush, .done)
  | .reset => (l.reset, .done)
  | .take => (l.take.2, .lines l.take.1)

/-- The line that a call prints. -/
def flushed? (l : Line) : Call → Option String
  | .flush => if l.written = [] then none else some l.text
  | _ => none

/-- The lines that the calls print, one after the other. -/
def flushed (l : Line) : List Call → List String
  | [] => []
  | call :: calls => (l.flushed? call).toList ++ (l.answer call).1.flushed calls

theorem length_of_mem_flushed {calls : List Call} {text : String} (h : text ∈ l.flushed calls) :
    text.length = 20 := by
  induction calls generalizing l with
  | nil => cases h
  | cons call calls ih =>
    rcases List.mem_append.mp h with hnow | hlater
    · unfold flushed? at hnow
      split at hnow
      · split at hnow
        · cases hnow
        · rw [List.mem_singleton.mp hnow]
          exact l.length_text
      · cases hnow
    · exact ih hlater

/-- A call hands out what waits, adds what it prints to what waits, or does neither. -/
theorem texts_append_queue_answer (l : Line) (call : Call) :
    (l.answer call).2.texts ++ (l.answer call).1.queue = l.queue ++ (l.flushed? call).toList := by
  cases call with
  | numeric r =>
    have hdrop : l.dropBlank.queue = l.queue := by
      unfold dropBlank
      split <;> rfl
    exact hdrop.trans (List.append_nil _).symm
  | alpha r | reset => exact (List.append_nil _).symm
  | flush =>
    simp only [answer, flushed?, flush]
    split
    · exact (List.append_nil _).symm
    · rfl
  | take => rfl

/-- **Every printed line is handed out once, or waits.** -/
theorem texts_append_queue (l : Line) (calls : List Call) :
    (serve answer l calls).2.flatMap Reply.texts ++ (serve answer l calls).1.queue =
      l.queue ++ l.flushed calls := by
  induction calls generalizing l with
  | nil => exact (List.append_nil _).symm
  | cons call calls ih =>
    calc (serve answer l (call :: calls)).2.flatMap Reply.texts ++
          (serve answer l (call :: calls)).1.queue
        = (l.answer call).2.texts ++ ((l.answer call).1.queue ++
            (l.answer call).1.flushed calls) := by
          rw [← ih, ← List.append_assoc]
          rfl
      _ = l.queue ++ l.flushed (call :: calls) := by
          rw [← List.append_assoc, texts_append_queue_answer, List.append_assoc]
          rfl

end Line

/-! ## 4. The cells and the line -/

namespace Printer

variable {p : Printer} {l : Line}

/-- The cells show what was written: the last code stands at the head, and what lies to the left of
the head is blank. -/
structure Shows (p : Printer) (l : Line) : Prop where
  head_eq : p.head = l.room
  cells_eq : p.cells.toList = List.replicate l.room blank ++ l.written.reverse
  printed_eq : p.printed.toList = l.queue

theorem shows_new : Shows .new .empty where
  head_eq := rfl
  cells_eq := by decide
  printed_eq := rfl

/-- **A code is written to the left of the others.** -/
theorem Shows.put (h : p.Shows l) (hroom : 0 < l.room) (code : Nat) :
    (p.put code).Shows (l.append [code]).1 := by
  have hleft := Line.room_append_singleton hroom code
  have hhead : p.head - 1 = (l.append [code]).1.room := by
    rw [h.head_eq]
    omega
  refine ⟨hhead, ?_, h.printed_eq⟩
  calc (p.put code).cells.toList
      = p.cells.toList.set (l.append [code]).1.room code := by
        rw [← hhead]
        exact Vector.toList_setIfInBounds ..
    _ = List.replicate (l.append [code]).1.room blank ++ code :: l.written.reverse := by
        rw [h.cells_eq, ← hleft, List.replicate_succ', List.append_assoc]
        simp
    _ = _ := by
        rw [Line.written_append_singleton hroom, List.reverse_append]
        rfl

/-- Writing stops where there is no more room. -/
theorem Shows.write (h : p.Shows l) (codes : List Nat) :
    (p.write codes).1.Shows (l.append codes).1 ∧ (p.write codes).2 = (l.append codes).2 := by
  -- the cells are filled one by one, and `append_cons` lets the line follow
  induction codes generalizing p l with
  | nil =>
    rw [Line.append_nil]
    exact ⟨h, rfl⟩
  | cons code codes ih =>
    unfold Printer.write
    split
    next hfull =>
      rw [Line.append_of_room_eq_zero (h.head_eq.symm.trans hfull)]
      exact ⟨h, rfl⟩
    next hfull =>
      have hroom : 0 < l.room := Nat.pos_of_ne_zero (h.head_eq ▸ hfull)
      rw [Line.append_cons hroom]
      exact ih (h.put hroom code)

/-- What stands at the head is the code written last. -/
theorem Shows.getD_head (h : p.Shows l) {code : Nat} :
    p.head < 20 ∧ p.cells.getD p.head 0 = code ↔ l.written.getLast? = some code := by
  have hroom := l.room_add_length
  -- the cells left of the head number as many as there is room, so the next one is the head itself
  have hcell : p.cells.getD p.head 0 = l.written.reverse.head?.getD 0 := by
    rw [Vector.getD, Array.getD_eq_getD_getElem?, ← Array.getElem?_toList]
    show (p.cells.toList[p.head]?).getD 0 = _
    rw [h.head_eq, h.cells_eq, List.getElem?_append_right (by simp), List.length_replicate,
      Nat.sub_self, List.head?_eq_getElem?]
  rw [hcell, h.head_eq, ← List.head?_reverse]
  cases hcodes : l.written.reverse with
  | nil =>
    have hempty : l.written = [] := List.reverse_eq_nil_iff.mp hcodes
    rw [hempty, List.length_nil, Nat.add_zero] at hroom
    simp [hroom]
  | cons last codes =>
    have hlength : l.written.length = codes.length + 1 := by
      rw [← List.length_reverse, hcodes, List.length_cons]
    simp only [List.head?_cons, Option.getD_some, Option.some.injEq, and_iff_right_iff_imp]
    omega

/-- **A blank is taken back by moving the head**: it is left to the left of it, where all is blank. -/
theorem Shows.dropBlank (h : p.Shows l) : p.dropBlank.Shows l.dropBlank := by
  unfold Printer.dropBlank Line.dropBlank
  by_cases hlast : l.written.getLast? = some blank
  · rw [if_pos (h.getD_head.mpr hlast), if_pos hlast]
    obtain ⟨codes, hcodes⟩ := List.getLast?_eq_some_iff.mp hlast
    have hroom : 20 - l.written.dropLast.length = l.room + 1 := by
      have hlength : l.written.length = codes.length + 1 := by
        rw [hcodes, List.length_append, List.length_singleton]
      have hsum := l.room_add_length
      rw [hcodes, List.dropLast_concat]
      omega
    refine ⟨?_, ?_, h.printed_eq⟩
    · exact (congrArg (· + 1) h.head_eq).trans hroom.symm
    · show p.cells.toList =
        List.replicate (20 - l.written.dropLast.length) blank ++ l.written.dropLast.reverse
      rw [hroom, h.cells_eq, hcodes, List.dropLast_concat, List.reverse_concat,
        List.replicate_succ', List.append_assoc]
      rfl
  · rw [if_neg fun hblank => hlast (h.getD_head.mp hblank), if_neg hlast]
    exact h

theorem throughBlank_eq_take (codes : List Nat) :
    throughBlank codes = codes.take (codes.findIdx (· = blank) + 1) := by
  induction codes with
  | nil => rfl
  | cons code codes ih =>
    unfold throughBlank
    split
    · simp [List.findIdx_cons, *]
    · simp [List.findIdx_cons, *]

theorem Shows.printNumeric (h : p.Shows l) (r : Register) :
    (p.printNumeric r).1.Shows (l.printNumeric r).1 ∧
      (p.printNumeric r).2 = (l.printNumeric r).2 := by
  have hcodes : (r.digits.toList.takeWhile (· ≠ 0xf)).map digitCode = Line.digitCodes r :=
    List.map_congr_left fun d _ => congrArg (· + 3) (Nat.mul_comm d 4)
  unfold Printer.printNumeric
  rw [hcodes]
  exact h.dropBlank.write _

theorem Shows.printAlpha (h : p.Shows l) {r : Register} (hr : r.FourBit) :
    (p.printAlpha r).1.Shows (l.printAlpha r).1 ∧ (p.printAlpha r).2 = (l.printAlpha r).2 := by
  unfold Printer.printAlpha
  rw [unpack_digits hr, throughBlank_eq_take]
  exact h.write _

theorem Shows.reset (h : p.Shows l) : p.reset.Shows l.reset :=
  ⟨rfl, shows_new.cells_eq, h.printed_eq⟩

theorem Shows.isEmpty_iff (h : p.Shows l) : p.isEmpty = true ↔ l.written = [] := by
  have hroom := l.room_add_length
  rw [isEmpty, decide_eq_true_iff, h.head_eq, ← List.length_eq_zero_iff]
  omega

/-- The cells are printed as they stand. -/
theorem Shows.text_eq (h : p.Shows l) :
    String.ofList (p.cells.toList.map character) = l.text := by
  have hblank : character blank = ' ' := by decide
  rw [h.cells_eq, List.map_append, List.map_replicate, hblank, List.map_reverse]
  rfl

theorem Shows.flush (h : p.Shows l) : p.flush.Shows l.flush := by
  unfold Printer.flush Line.flush
  by_cases hempty : l.written = []
  · rw [if_pos (h.isEmpty_iff.mpr hempty), if_pos hempty]
    exact h
  · rw [if_neg fun hno => hempty (h.isEmpty_iff.mp hno), if_neg hempty]
    refine ⟨rfl, shows_new.cells_eq, ?_⟩
    show (p.printed.push (String.ofList (p.cells.toList.map character))).toList =
      l.queue ++ [l.text]
    rw [Array.toList_push, h.printed_eq, h.text_eq]

theorem Shows.take (h : p.Shows l) : p.take.1 = l.take.1 ∧ p.take.2.Shows l.take.2 :=
  ⟨h.printed_eq, h.head_eq, h.cells_eq, rfl⟩

/-- Both answer a call alike. -/
theorem Shows.answer (h : p.Shows l) {call : Call} (hcall : call.FourBit) :
    (p.answer call).1.Shows (l.answer call).1 ∧ (p.answer call).2 = (l.answer call).2 := by
  cases call with
  | numeric r =>
    obtain ⟨hshows, hwritten⟩ := h.printNumeric r
    exact ⟨hshows, congrArg Reply.written hwritten⟩
  | alpha r =>
    obtain ⟨hshows, hwritten⟩ := h.printAlpha hcall
    exact ⟨hshows, congrArg Reply.written hwritten⟩
  | flush => exact ⟨h.flush, rfl⟩
  | reset => exact ⟨h.reset, rfl⟩
  | take => exact ⟨h.take.2, congrArg Reply.lines h.take.1⟩

/-! ## 5. Sequences of calls -/

/-- What holds of one call holds of one call after the other. -/
theorem Shows.serve (h : p.Shows l) {calls : List Call} (hcalls : ∀ call ∈ calls, call.FourBit) :
    (serve Printer.answer p calls).1.Shows (serve Line.answer l calls).1 ∧
      (serve Printer.answer p calls).2 = (serve Line.answer l calls).2 := by
  induction calls generalizing p l with
  | nil => exact ⟨h, rfl⟩
  | cons call calls ih =>
    obtain ⟨hcall, hrest⟩ := List.forall_mem_cons.mp hcalls
    obtain ⟨hshows, hreply⟩ := h.answer hcall
    obtain ⟨hshows', hreplies⟩ := ih hshows hrest
    exact ⟨hshows', List.cons_eq_cons.mpr ⟨hreply, hreplies⟩⟩

/-- **The printer is a line of at most twenty codes and a queue**: whatever is asked of a new one, it
replies as the line does, and its cells show what is on the line.  The texts that are handed out,
and those that still wait, are the lines that were printed, each of them once, in their order and
with its twenty characters. -/
theorem printer_refines_line {calls : List Call} (h : ∀ call ∈ calls, call.FourBit) :
    (serve Printer.answer .new calls).2 = (serve Line.answer .empty calls).2 ∧
    (serve Printer.answer .new calls).1.Shows (serve Line.answer .empty calls).1 ∧
    (serve Printer.answer .new calls).2.flatMap Reply.texts ++
      (serve Printer.answer .new calls).1.printed.toList = Line.empty.flushed calls ∧
    ∀ text ∈ Line.empty.flushed calls, text.length = 20 := by
  obtain ⟨hshows, hreplies⟩ := shows_new.serve h
  refine ⟨hreplies, hshows, ?_, fun _ => Line.length_of_mem_flushed⟩
  rw [hreplies, hshows.printed_eq]
  exact Line.texts_append_queue .empty calls

/-- The letter A and a blank, then a number: the number takes the place of the blank.  Of twice
fourteen digits twenty fill the next line, and eight find no room. -/
theorem printer_refines_line_full :
    let letter : Register := ⟨#v[0x8, 0xe, 0xf, 0, 0, 0, 0, 0, 0, 0, 0, 0, 0, 0]⟩
    let number : Register := ⟨#v[2, 1, 0xf, 0, 0, 0, 0, 0, 0, 0, 0, 0, 0, 0]⟩
    let ones : Register := ⟨Vector.replicate 14 1⟩
    let calls := [.alpha letter, .numeric number, .flush, .numeric ones, .numeric ones, .flush, .take]
    (serve Printer.answer .new calls).2 = (serve Line.answer .empty calls).2 ∧
    (serve Line.answer .empty calls).2 =
      [.written true, .written true, .done, .written true, .written false, .done,
        .lines ["                 12A", "11111111111111111111"]] := by
  refine ⟨(printer_refines_line ?_).1, ?_⟩
  · simp only [List.forall_mem_cons, Call.FourBit]
    exact ⟨Register.fourBit_of_lt (by decide), Register.fourBit_of_lt (by decide), trivial,
      Register.fourBit_of_lt (by decide), Register.fourBit_of_lt (by decide), trivial, trivial,
      nofun⟩
  · decide

end Printer

end Calculator

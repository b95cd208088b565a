import BoundaryHeap.Proofs.Words
import BoundaryHeap.Summary.Markdown
import BoundaryHeap.Trace.Reader
import Mathlib.Algebra.Ring.Nat
import Mathlib.Data.List.Forall2

/-!
The table of a summary, cell by cell. Whatever a run is called and however it failed, its row has
ten bars and a line break of its own. But the label and the error are written as they are, and a bar
or a line break in one of them comes on top: the rows make a table exactly if there is none.
-/

namespace BoundaryHeap

namespace Summary

/-! ## Bars and cells -/

/-- The bars of a text that nothing escapes, counted from a character on that is escaped itself or
not. A backslash escapes the character behind it, be it another backslash. -/
def bareBarsFrom (escaped : Bool) : List Char → Nat
  | [] => 0
  | c :: rest =>
    if escaped then bareBarsFrom false rest
    else if c = '|' then bareBarsFrom false rest + 1
    else bareBarsFrom (c = '\\') rest

/-- The bars of a text that nothing escapes. -/
def bareBars (text : List Char) : Nat := bareBarsFrom false text

/-- A text that a cell of a table can hold. -/
structure FitsCell (text : List Char) : Prop where
  barless : bareBars text = 0
  unbroken : '\n' ∉ text

/-- A line of a table: a bar, and each cell between blanks with a bar behind it. -/
def lineOf (cells : List (List Char)) : List Char :=
  '|' :: cells.flatMap fun cell => ' ' :: (cell ++ [' ', '|'])

variable {text rest : List Char} {cells : List (List Char)}

/-- Behind a blank a bar is a bar, whatever the text in front of the blank ends with. -/
theorem bareBarsFrom_append_blank (escaped : Bool) (text rest : List Char) :
    bareBarsFrom escaped (text ++ ' ' :: rest) = bareBarsFrom escaped text + bareBars rest := by
  induction text generalizing escaped with
  | nil => cases escaped <;> simp [bareBarsFrom, bareBars]
  | cons c text ih =>
    simp only [List.cons_append, bareBarsFrom, ih]
    split_ifs <;> omega

theorem bareBarsFrom_of_notMem (absent : '|' ∉ text) (escaped : Bool) :
    bareBarsFrom escaped text = 0 := by
  induction text generalizing escaped with
  | nil => rfl
  | cons c text ih =>
    rw [List.mem_cons, not_or] at absent
    simp only [bareBarsFrom, ih absent.2, if_neg (Ne.symm absent.1), ite_self]

theorem bareBars_cons {c : Char} (bar : c ≠ '|') (backslash : c ≠ '\\') :
    bareBars (c :: rest) = bareBars rest := by
  simp [bareBars, bareBarsFrom, bar, backslash]

/-- A line has a bar more than it has cells, besides those in its cells. -/
theorem bareBars_lineOf (cells : List (List Char)) (rest : List Char) :
    bareBars (lineOf cells ++ rest) =
      cells.length + 1 + (cells.map bareBars).sum + bareBars rest := by
  have each : bareBars ((cells.flatMap fun cell => ' ' :: (cell ++ [' ', '|'])) ++ rest) =
      cells.length + (cells.map bareBars).sum + bareBars rest := by
    induction cells with
    | nil => simp
    | cons cell cells ih =>
      have behind : bareBars
          ('|' :: ((cells.flatMap fun cell => ' ' :: (cell ++ [' ', '|'])) ++ rest)) = _ + 1 :=
        congrArg (· + 1) ih
      simp only [List.flatMap_cons, List.cons_append, List.append_assoc, List.nil_append,
        List.length_cons, List.map_cons, List.sum_cons]
      rw [bareBars_cons (by decide) (by decide), bareBars, bareBarsFrom_append_blank, behind,
        ← bareBars]
      omega
  have first : bareBars (lineOf cells ++ rest) =
      bareBars ((cells.flatMap fun cell => ' ' :: (cell ++ [' ', '|'])) ++ rest) + 1 := rfl
  omega

theorem count_lineOf (cells : List (List Char)) :
    (lineOf cells).count '\n' = (cells.map (·.count '\n')).sum := by
  simp [lineOf, List.count_flatMap, Function.comp_def]

/-! ## The cells of a row -/

/-- The two texts of a row that come from elsewhere: what the trace is called, and why it failed. -/
def texts (run : TraceRun) : List (List Char) :=
  run.trace.toList :: if run.report.isSome then [] else [(run.error.getD "unknown").toList]

/-- The cells of the row of a run. -/
def cellsOf (run : TraceRun) : List (List Char) :=
  run.trace.toList :: Nat.toDigits 10 run.weight ::
    match run.report with
    | some r =>
      [Nat.toDigits 10 r.ops, Nat.toDigits 10 r.peakLiveBytes, Nat.toDigits 10 r.arenaBytes,
        (Decimal.fixedText 1 (r.utilization * 100.0)).toList ++ ['%'],
        Nat.toDigits 10 r.growCalls, (Decimal.fixedText 1 (r.opsPerSecond / 1000.0)).toList,
        "pass".toList]
    | none => List.replicate 6 ['-'] ++ ["FAIL: ".toList ++ (run.error.getD "unknown").toList]

theorem toList_row (run : TraceRun) : (row run).toList = lineOf (cellsOf run) ++ ['\n'] := by
  cases report : run.report with
  | some r => simp [row, cellsOf, report, lineOf, toString, Nat.repr_eq_ofList_toDigits]
  | none =>
    simp [row, cellsOf, report, lineOf, toString, Nat.repr_eq_ofList_toDigits, List.replicate]

/-! ## What the program writes itself -/

/-- A text without bars and line breaks. -/
def Plain (text : List Char) : Prop := '|' ∉ text ∧ '\n' ∉ text

instance : Decidable (Plain text) := inferInstanceAs (Decidable (_ ∧ _))

theorem plain_append : Plain (text ++ rest) ↔ Plain text ∧ Plain rest := by
  simp only [Plain, List.mem_append, not_or]
  tauto

theorem plain_of_digits (digits : ∀ c ∈ text, c.isDigit) : Plain text :=
  ⟨fun bar => absurd (digits _ bar) (by decide), fun break_ => absurd (digits _ break_) (by decide)⟩

theorem plain_toDigits (number : Nat) : Plain (Nat.toDigits 10 number) :=
  plain_of_digits fun _ => Text.isDigit_of_mem_toDigits

theorem plain_padded (width number : Nat) : Plain (Text.padded 10 width number) := by
  refine plain_of_digits fun c member => ?_
  rw [Text.padded, List.leftpad, List.mem_append] at member
  rcases member with zero | digit
  · rw [List.eq_of_mem_replicate zero]
    decide
  · exact Text.isDigit_of_mem_toDigits digit

theorem plain_placesText (places units : Nat) : Plain (Decimal.placesText places units).toList := by
  have point : Plain ['.'] := by decide
  unfold Decimal.placesText
  split
  · simpa [toString, Nat.repr_eq_ofList_toDigits] using plain_toDigits units
  · simp only [toString, String.toList_append, Nat.repr_eq_ofList_toDigits, String.toList_ofList]
    exact plain_append.mpr ⟨plain_append.mpr ⟨plain_toDigits _, point⟩, plain_padded _ _⟩

theorem plain_fixedText (places : Nat) (x : Double) :
    Plain (Decimal.fixedText places x).toList := by
  unfold Decimal.fixedText
  cases x.shape with
  | nan => exact (by decide : Plain "NaN".toList)
  | infinite negative =>
    cases negative
    · exact (by decide : Plain "inf".toList)
    · exact (by decide : Plain "-inf".toList)
  | finite negative mantissa exponent =>
    rw [String.toList_append]
    refine plain_append.mpr ⟨?_, plain_placesText _ _⟩
    cases negative
    · exact (by decide : Plain "".toList)
    · exact (by decide : Plain "-".toList)

/-- Whatever plain texts have none of, the cells have no more of it than the texts from elsewhere. -/
theorem sum_cellsOf {measure : List Char → Nat} (none : ∀ text, Plain text → measure text = 0)
    (lead : ∀ error, measure ("FAIL: ".toList ++ error) = measure error) (run : TraceRun) :
    ((cellsOf run).map measure).sum = ((texts run).map measure).sum := by
  have digits (number : Nat) : measure (Nat.toDigits 10 number) = 0 := none _ (plain_toDigits number)
  have fixed (x : Double) : measure (Decimal.fixedText 1 x).toList = 0 :=
    none _ (plain_fixedText 1 x)
  have percent (x : Double) : measure ((Decimal.fixedText 1 x).toList ++ ['%']) = 0 :=
    none _ (plain_append.mpr ⟨plain_fixedText 1 x, by decide⟩)
  have pass : measure "pass".toList = 0 := none _ (by decide)
  have dash : measure ['-'] = 0 := none _ (by decide)
  cases report : run.report with
  | some r => simp only [cellsOf, texts, report, digits, fixed, percent, pass, List.map_cons,
      List.map_nil, List.sum_cons, List.sum_nil, Option.isSome_some, if_true, Nat.zero_add]
  | none => simp only [cellsOf, texts, report, digits, dash, lead, List.map_cons, List.map_nil,
      List.map_append, List.map_replicate, List.sum_append_nat, List.sum_replicate_nat,
      List.sum_cons, List.sum_nil, Option.isSome_none, Bool.false_eq_true, if_false, Nat.zero_add,
      Nat.mul_zero]

theorem length_cellsOf (run : TraceRun) : (cellsOf run).length = 9 := by
  cases report : run.report <;> simp [cellsOf, report]

/-- The bars of a row are its own ten and those of the texts from elsewhere. -/
theorem bareBars_row (run : TraceRun) (rest : List Char) :
    bareBars (lineOf (cellsOf run) ++ rest) =
      10 + ((texts run).map bareBars).sum + bareBars rest := by
  have none (text : List Char) (plain : Plain text) : bareBars text = 0 :=
    bareBarsFrom_of_notMem plain.1 false
  rw [bareBars_lineOf, length_cellsOf, sum_cellsOf none fun _ => rfl]

theorem count_row (run : TraceRun) :
    (lineOf (cellsOf run)).count '\n' = ((texts run).map (·.count '\n')).sum := by
  rw [count_lineOf, sum_cellsOf (fun _ plain => List.count_eq_zero.mpr plain.2) fun _ => rfl]

/-! ## The table -/

/-- Behind its heading the table has one line for each run, in the order of the runs, and nine cells
and so ten bars in each of them. -/
def Tabular (s : Summary) : Prop :=
  ∃ lines : List (List Char),
    (String.join (s.runs.map row)).toList = lines.flatMap (· ++ ['\n']) ∧
    List.Forall₂ (fun run line =>
      (row run).toList = line ++ ['\n'] ∧ '\n' ∉ line ∧ bareBars line = 10) s.runs lines

/-- A row is a line of nine cells exactly if its two texts from elsewhere fit into their cells. -/
theorem line_iff_fits (run : TraceRun) :
    ('\n' ∉ lineOf (cellsOf run) ∧ bareBars (lineOf (cellsOf run)) = 10) ↔
      ∀ text ∈ texts run, FitsCell text := by
  have bars := bareBars_row run []
  have ends : bareBars [] = 0 := rfl
  rw [List.append_nil, ends, Nat.add_zero] at bars
  rw [← List.count_eq_zero, count_row, bars, Nat.add_eq_left,
    List.sum_eq_zero_iff_forall_eq_nat, List.sum_eq_zero_iff_forall_eq_nat,
    List.forall_mem_map, List.forall_mem_map]
  constructor
  · rintro ⟨breaks, bars⟩ text member
    exact ⟨bars text member, List.count_eq_zero.mp (breaks text member)⟩
  · intro fits
    exact ⟨fun text member => List.count_eq_zero.mpr (fits text member).unbroken,
      fun text member => (fits text member).barless⟩

theorem tabular_iff (s : Summary) :
    Tabular s ↔ ∀ run ∈ s.runs, ∀ text ∈ texts run, FitsCell text := by
  constructor
  · rintro ⟨lines, -, rows⟩
    have fit : List.Forall₂ (fun run line =>
        (∀ text ∈ texts run, FitsCell text) ∧ (row run).toList = line ++ ['\n']) s.runs lines := by
      apply rows.imp
      rintro run line ⟨same, alone⟩
      refine ⟨?_, same⟩
      rw [toList_row] at same
      obtain rfl := List.append_cancel_right same
      exact (line_iff_fits run).mp alone
    exact ((List.forall₂_and_left s.runs lines).mp fit).1
  · intro fits
    refine ⟨s.runs.map fun run => lineOf (cellsOf run), ?_, ?_⟩
    · simp [List.flatMap_map, toList_row]
    · rw [List.forall₂_map_right_iff, List.forall₂_same]
      exact fun run member => ⟨toList_row run, (line_iff_fits run).mpr (fits run member)⟩

/-- The Markdown of a summary, whatever its runs are called and however they failed. The two lines
at the head of the table have ten bars each. The row of a run has ten bars and one line break, and on
top of these whatever bars and breaks its label and its error have that nothing escapes. So the rows
are a table, a line of nine cells for each run in turn, exactly if none of these texts has any. -/
theorem markdown_table (s : Summary) :
    markdown s = heading s ++ tableHead ++ String.join (s.runs.map row) ∧
    (tableHead.toList.splitOn '\n').map bareBars = [10, 10, 0] ∧
    (∀ run, bareBars (row run).toList = 10 + ((texts run).map bareBars).sum ∧
      (row run).toList.count '\n' = 1 + ((texts run).map (·.count '\n')).sum) ∧
    (Tabular s ↔ ∀ run ∈ s.runs, ∀ text ∈ texts run, FitsCell text) := by
  refine ⟨rfl, by decide +kernel, fun run => ⟨?_, ?_⟩, tabular_iff s⟩
  · rw [toList_row, bareBars_row]
    rfl
  · rw [toList_row, List.count_append, count_row, Nat.add_comm]
    rfl

/-- A word that names no operation is quoted in the error, be it a bar. -/
example : Trace.ofText "0 1 1 1\n| 0 8\n" = .error (.unknownOp 2 "|") ∧
    bareBars (row (.failed "a.rep" 0 (TraceError.unknownOp 2 "|").message)).toList = 11 :=
  ⟨by rfl, by decide +kernel⟩

end Summary

end BoundaryHeap

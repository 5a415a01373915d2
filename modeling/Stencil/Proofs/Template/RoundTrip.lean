import Mathlib
import Stencil.Template.Reading
import Stencil.Template.Writing
import Stencil.Proofs.Calendar.DateTime
import Stencil.Proofs.Json.Markup

/-! Templates are read back from the JSON that they are written as. Each type of a template has one
lemma, which puts the lemmas of its fields together. -/

namespace Stencil

open Json (Keeps keeps_text keeps_word32 keeps_natural keeps_list keeps_record plain_object)

/-! ### Sparse entries -/

namespace Sparse

variable {α : Type}

/-- An entry above all others comes behind them. -/
theorem place_above {index : Nat} (x : α) {entries : List (Nat × α)}
    (above : ∀ entry ∈ entries, entry.1 < index) :
    place index x entries = entries ++ [(index, x)] := by
  induction entries with
  | nil => rfl
  | cons head rest ih =>
      obtain ⟨i, y⟩ := head
      obtain ⟨lower, others⟩ := List.forall_mem_cons.1 above
      rw [place, if_neg (Nat.not_lt.2 (Nat.le_of_lt lower)), if_neg (Nat.ne_of_gt lower), ih others,
        List.cons_append]

theorem ofList_entries (s : Sparse α) : ofList s.entries = s := by
  have filled (rest front : List (Nat × α)) (start : Sparse α) (begins : start.entries = front)
      (ascending : (front ++ rest).Pairwise fun a b => a.1 < b.1) :
      (rest.foldl (fun s entry => s.set entry.1 entry.2) start).entries = front ++ rest := by
    induction rest generalizing front start with
    | nil => rw [List.foldl_nil, begins, List.append_nil]
    | cons entry rest ih =>
        have above : ∀ before ∈ front, before.1 < entry.1 := fun before member =>
          (List.pairwise_append.1 ascending).2.2 before member entry (List.mem_cons_self ..)
        have placed : (start.set entry.1 entry.2).entries = front ++ [entry] := by
          subst begins
          exact place_above entry.2 above
        rw [List.foldl_cons, ih (front ++ [entry]) _ placed, List.append_assoc,
          List.singleton_append]
        rwa [List.append_assoc, List.singleton_append]
  exact ext (filled s.entries [] empty rfl s.ascending)

theorem keeps {read : Json → Option α} {write : α → Json} {s : Sparse α}
    (words : ∀ entry ∈ s.entries, entry.1 < 2 ^ 64)
    (keeps : ∀ entry ∈ s.entries, Keeps read (write entry.2) entry.2) :
    Keeps (Sparse.ofMarkup? read) (s.toJson write) s where
  plain := plain_object (List.forall_mem_map.2 fun entry member => (keeps entry member).plain)
  reads := by
    have entries : (s.entries.map fun entry => (entry.1, write entry.2)).mapM
        (fun entry => (read entry.2).map (entry.1, ·)) = some (s.entries.map id) := by
      refine Json.mapM_of_reads fun entry member => ?_
      rw [(keeps entry member).reads]
      rfl
    rw [List.map_id] at entries
    rw [Sparse.ofMarkup?, Sparse.toJson, Json.indexed?_object words, Option.bind_eq_bind,
      Option.bind_some]
    exact (congrArg (Option.bind · fun entries => some (ofList entries)) entries).trans
      (congrArg some s.ofList_entries)

end Sparse

/-! ### Documents -/

theorem Run.keeps (run : Run) : Keeps Run.ofMarkup? run.toJson run := by
  have text := keeps_text run.text
  have style := keeps_word32 run.style
  refine keeps_record rfl (by decide) ?_ ?_
  · exact List.forall_mem_cons.2 ⟨text.plain, List.forall_mem_singleton.2 style.plain⟩
  · simp only [List.map, Markup.orDefault, text.reads, style.reads]
    rfl

theorem Paragraph.keeps (p : Paragraph) : Keeps Paragraph.ofMarkup? p.toJson p := by
  have runs := keeps_list fun (run : Run) (_ : run ∈ p.runs) => run.keeps
  refine keeps_record rfl (by decide) (List.forall_mem_singleton.2 runs.plain) ?_
  simp only [List.map, Markup.orDefault, runs.reads]
  rfl

theorem CellMerge.keeps (merge : CellMerge) : Keeps CellMerge.ofMarkup? merge.toJson merge := by
  cases merge with
  | gridSpan columns =>
      have count := keeps_word32 columns
      refine ⟨plain_object (List.forall_mem_singleton.2 count.plain), ?_⟩
      change (Markup.word32? _).map CellMerge.gridSpan = _
      rw [count.reads, Option.map_some]
  | horizontal => exact ⟨(keeps_text _).plain, rfl⟩
  | vertical => exact ⟨(keeps_text _).plain, rfl⟩

/-- A cell that takes part in no merge says so. -/
theorem keeps_merge (merge : Option CellMerge) :
    Keeps (Markup.maybe? CellMerge.ofMarkup?) ((merge.map CellMerge.toJson).getD .null) merge := by
  cases merge with
  | none => exact ⟨Json.plain_null, rfl⟩
  | some merge =>
      refine ⟨merge.keeps.plain, ?_⟩
      have there : Markup.isLeftOut? merge.toJson = some false := by
        cases merge <;> rfl
      rw [Option.map_some, Option.getD_some, Markup.maybe?, there, Option.bind_eq_bind,
        Option.bind_some, merge.keeps.reads]
      rfl

theorem TableCell.keeps (cell : TableCell) : Keeps TableCell.ofMarkup? cell.toJson cell := by
  have paragraphs := keeps_list fun (p : Paragraph) (_ : p ∈ cell.paragraphs) => p.keeps
  have merge := keeps_merge cell.merge
  refine keeps_record rfl (by decide) ?_ ?_
  · exact List.forall_mem_cons.2 ⟨paragraphs.plain, List.forall_mem_singleton.2 merge.plain⟩
  · simp only [List.map, Markup.orDefault, paragraphs.reads, merge.reads]
    rfl

theorem TableRow.keeps (row : TableRow) : Keeps TableRow.ofMarkup? row.toJson row := by
  have cells := keeps_list fun (cell : TableCell) (_ : cell ∈ row.cells) => cell.keeps
  refine keeps_record rfl (by decide) (List.forall_mem_singleton.2 cells.plain) ?_
  simp only [List.map, Markup.orDefault, cells.reads]
  rfl

theorem Table.keeps (t : Table) : Keeps Table.ofMarkup? t.toJson t := by
  have rows := keeps_list fun (row : TableRow) (_ : row ∈ t.rows) => row.keeps
  refine keeps_record rfl (by decide) (List.forall_mem_singleton.2 rows.plain) ?_
  simp only [List.map, Markup.orDefault, rows.reads]
  rfl

theorem Body.keeps (b : Body) : Keeps Body.ofMarkup? b.toJson b := by
  have paragraphs := keeps_list fun (p : Paragraph) (_ : p ∈ b.paragraphs) => p.keeps
  have tables := keeps_list fun (t : Table) (_ : t ∈ b.tables) => t.keeps
  refine keeps_record rfl (by decide) ?_ ?_
  · exact List.forall_mem_cons.2 ⟨paragraphs.plain, List.forall_mem_singleton.2 tables.plain⟩
  · simp only [List.map, Markup.orDefault, paragraphs.reads, tables.reads]
    rfl

theorem Document.keeps (d : Document) : Keeps Document.ofMarkup? d.toJson d := by
  have headers := keeps_list fun (b : Body) (_ : b ∈ d.headers) => b.keeps
  have footers := keeps_list fun (b : Body) (_ : b ∈ d.footers) => b.keeps
  refine keeps_record rfl (by decide) ?_ ?_
  · exact List.forall_mem_cons.2 ⟨d.body.keeps.plain,
      List.forall_mem_cons.2 ⟨headers.plain, List.forall_mem_singleton.2 footers.plain⟩⟩
  · simp only [List.map, Markup.orDefault, d.body.keeps.reads, headers.reads, footers.reads]
    rfl

/-! ### Workbooks -/

def CellValue.isFloat : CellValue → Bool
  | float _ => true
  | _ => false

theorem CellValue.ofMarkup?_pair (type : String) (content : Json) :
    ofMarkup? (Json.object [("type", Json.ofText type), ("value", content)]) =
      ofContent? type (some content) := rfl

theorem CellValue.keeps {value : CellValue} (exact : value.isFloat = false) :
    Keeps CellValue.ofMarkup? value.toJson value := by
  have pair {type : String} {content : Json} (plain : content.Plain) :
      (Json.object [("type", Json.ofText type), ("value", content)]).Plain :=
    plain_object (List.forall_mem_cons.2 ⟨(keeps_text type).plain,
      List.forall_mem_singleton.2 plain⟩)
  cases value with
  | blank => exact ⟨plain_object (List.forall_mem_singleton.2 (keeps_text _).plain), rfl⟩
  | text value => exact ⟨pair (keeps_text value).plain, rfl⟩
  | bool value => exact ⟨pair (Json.plain_bool value), rfl⟩
  | int value =>
      refine ⟨pair (Json.plain_ofInt value.toInt), ?_⟩
      rw [toJson, ofMarkup?_pair, ofContent?, Json.integer?_ofInt, Option.map_some,
        Int64.ofInt_toInt]
  | float value => cases exact
  | date value =>
      refine ⟨pair (keeps_text _).plain, ?_⟩
      have text : Markup.text? (Json.ofText (String.ofList value.toText)) =
          some (String.ofList value.toText) := rfl
      rw [toJson, ofMarkup?_pair, ofContent?, text, Option.bind_some, String.toList_ofList,
        Calendar.DateTime.ofText?_toText, Option.map_some]

theorem Cell.keeps {cell : Cell} (exact : cell.value.isFloat = false) :
    Keeps Cell.ofMarkup? cell.toJson cell := by
  have value := CellValue.keeps exact
  have style := keeps_word32 cell.style
  refine keeps_record rfl (by decide) ?_ ?_
  · exact List.forall_mem_cons.2 ⟨value.plain, List.forall_mem_singleton.2 style.plain⟩
  · simp only [List.map, Markup.orDefault, value.reads, style.reads]
    rfl

/-- No cell holds a floating point number. -/
def Row.IsExact (row : Row) : Prop := ∀ cell ∈ row.entries, cell.2.value.isFloat = false

def Workbook.IsExact (w : Workbook) : Prop :=
  ∀ s ∈ w.sheets, ∀ row ∈ s.rows.entries, row.2.IsExact

/-- The columns have numbers that fit a word. -/
def Row.InWords (row : Row) : Prop := ∀ cell ∈ row.entries, cell.1 < 2 ^ 64

def Region.InWords (r : Region) : Prop :=
  r.firstRow < 2 ^ 64 ∧ r.lastRow < 2 ^ 64 ∧ r.firstColumn < 2 ^ 64 ∧ r.lastColumn < 2 ^ 64

def Sheet.InWords (s : Sheet) : Prop :=
  (∀ row ∈ s.rows.entries, row.1 < 2 ^ 64 ∧ row.2.InWords) ∧ ∀ region ∈ s.merged, region.InWords

def Workbook.InWords (w : Workbook) : Prop := ∀ s ∈ w.sheets, s.InWords

theorem Row.keeps {row : Row} (exact : row.IsExact) (words : row.InWords) :
    Keeps Row.ofMarkup? row.toJson row := by
  have cells := Sparse.keeps words fun cell member => Cell.keeps (exact cell member)
  refine keeps_record rfl (by decide) (List.forall_mem_singleton.2 cells.plain) ?_
  simp only [List.map, Markup.orDefault, cells.reads]

theorem Region.keeps {r : Region} (words : r.InWords) : Keeps Region.ofMarkup? r.toJson r := by
  obtain ⟨firstRow, lastRow, firstColumn, lastColumn⟩ := words
  have firstRow := keeps_natural firstRow
  have lastRow := keeps_natural lastRow
  have firstColumn := keeps_natural firstColumn
  have lastColumn := keeps_natural lastColumn
  refine keeps_record rfl (by decide) ?_ ?_
  · exact List.forall_mem_cons.2 ⟨firstRow.plain, List.forall_mem_cons.2 ⟨lastRow.plain,
      List.forall_mem_cons.2 ⟨firstColumn.plain, List.forall_mem_singleton.2 lastColumn.plain⟩⟩⟩
  · simp only [List.map, firstRow.reads, lastRow.reads, firstColumn.reads, lastColumn.reads]
    rfl

theorem Sheet.keeps {s : Sheet} (exact : ∀ row ∈ s.rows.entries, row.2.IsExact)
    (words : s.InWords) : Keeps Sheet.ofMarkup? s.toJson s := by
  obtain ⟨numbered, bounded⟩ := words
  have name := keeps_text s.name
  have rows := Sparse.keeps (fun row member => (numbered row member).1) fun row member =>
    Row.keeps (exact row member) (numbered row member).2
  have merged := keeps_list fun region member => Region.keeps (bounded region member)
  refine keeps_record rfl (by decide) ?_ ?_
  · exact List.forall_mem_cons.2 ⟨name.plain,
      List.forall_mem_cons.2 ⟨rows.plain, List.forall_mem_singleton.2 merged.plain⟩⟩
  · simp only [List.map, Markup.orDefault, name.reads, rows.reads, merged.reads]
    rfl

theorem Workbook.keeps {w : Workbook} (exact : w.IsExact) (words : w.InWords) :
    Keeps Workbook.ofMarkup? w.toJson w := by
  have sheets := keeps_list fun s member => Sheet.keeps (exact s member) (words s member)
  refine keeps_record rfl (by decide) (List.forall_mem_singleton.2 sheets.plain) ?_
  simp only [List.map, sheets.reads]
  rfl

/-- Every document, and every workbook without floating point numbers, is read back from its JSON
text as it was. The dates of a workbook are any that a calendar and a clock can show, and its
indices any that fit a word. -/
theorem templates_read_back :
    (∀ d : Document, Document.ofJson? (Json.write d.toJson) = some d) ∧
    ∀ w : Workbook, w.IsExact → w.InWords → Workbook.ofJson? (Json.write w.toJson) = some w := by
  refine ⟨fun d => ?_, fun w exact words => ?_⟩
  · rw [Document.ofJson?, Json.read?_write d.keeps.plain, Option.bind_some, d.keeps.reads]
  · have kept := Workbook.keeps exact words
    rw [Workbook.ofJson?, Json.read?_write kept.plain, Option.bind_some, kept.reads]

/-- A workbook with a text that needs every kind of escape, a date before the year zero, the least
integer, a region and a cell far out. -/
def ledger : Workbook :=
  let day : Calendar.Date := ⟨-44, 3, 15, by decide, by decide⟩
  let clock : Calendar.Clock := ⟨23, 59, 60, 500, by decide⟩
  let sheet := (({ name := "Konto \"1\"", merged := [⟨0, 2, 1, 3⟩] } : Sheet).setValue 0 1
    (.text "a\\b\n\x01/é😀")).setValue 0 2 (.date ⟨day, clock⟩)
  ⟨[((sheet.setValue 7 0 (.int (-9223372036854775808))).setStyle 7 0 4294967295).setValue
    18446744073709551615 5 .blank]⟩

theorem ledger_reads_back :
    ledger.IsExact ∧ ledger.InWords ∧
      Workbook.ofJson? (Json.write ledger.toJson) = some ledger := by
  have exact : ledger.IsExact := by
    unfold Workbook.IsExact Row.IsExact
    decide
  have words : ledger.InWords := by
    unfold Workbook.InWords Sheet.InWords Row.InWords Region.InWords
    decide
  exact ⟨exact, words, templates_read_back.2 ledger exact words⟩

end Stencil

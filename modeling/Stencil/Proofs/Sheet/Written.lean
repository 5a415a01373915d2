import Stencil.Proofs.Placeholder.Whole
import Stencil.Proofs.Sheet.Visit

/-! The cells that an expansion writes, and those of the rows that it makes: the value of an item in
the style of the template cell, and blank cells in the styles of the template row. -/

namespace Stencil

/-! ### Values -/

/-- What is written of an item between two texts. Between empty ones a value keeps its type. -/
def CollectionUse.placed (use : CollectionUse) (options : FillOptions) (front behind : String)
    (item : Value) : CellValue :=
  let found := (itemValue? item use.property).getD (.null, none)
  if front = "" ∧ behind = "" then .ofValue options found.2 found.1
  else .text (front ++ found.1.render options found.2 ++ behind)

/-- A cell is written with the text around its first collection as it was. -/
theorem CollectionUse.exists_placed {use : CollectionUse} {template : String}
    (first : firstCollection? template = some use) (options : FillOptions) :
    ∃ front behind, template = front ++ use.sourceText ++ behind ∧
      Text.bytes front.toList = use.start ∧ hasPlaceholder .collection front = false ∧
      ∀ item, use.valueOf options template item = use.placed options front behind item := by
  obtain ⟨front, path, property, rest, split, plain, outer, inner, start⟩ :=
    exists_split_of_firstCollection? first
  have written : use.sourceText = String.ofList (Placeholder.collection path property).text := by
    rw [← sourceText_of_text use.start use.stop, ← outer, ← inner]
  have whole : template = String.ofList (front.flatMap Piece.text) ++ use.sourceText ++
      String.ofList (rest.flatMap Piece.text) := by
    have joined := flatMap_text_pieces .collection template.toList
    rw [split, List.flatMap_append, List.flatMap_cons] at joined
    rw [written, ← String.ofList_append, ← String.ofList_append, List.append_assoc]
    exact (String.ofList_toList).symm.trans (congrArg String.ofList joined.symm)
  refine ⟨String.ofList (front.flatMap Piece.text), String.ofList (rest.flatMap Piece.text), whole,
    ?_, ?_, ?_⟩
  · rw [String.toList_ofList, start]
  · rw [hasPlaceholder, String.toList_ofList, pieces_of_plain split plain, List.any_eq_false]
    intro piece member
    rw [plain piece member]
    exact Bool.false_ne_true
  · intro item
    simp only [valueOf, placed, replaceFirst_of_split split plain,
      isSinglePlaceholder_iff_of_split split, Piece.ofList_flatMap_eq_empty_iff]

/-! ### All cells -/

/-- What a sheet becomes when values are written into a column from the row `row` on. The first
`kept` of them leave the rows where they are, all others push down what follows. -/
structure Sheet.Grown (s next : Sheet) (row column kept : Nat) (values : List CellValue)
    (style : UInt32) : Prop where
  fits : kept ≤ values.length
  written : ∀ i value, values[i]? = some value →
    next.cell? (row + i) column = some { value, style }
  /-- No row is lost, and only the column of the values is written. -/
  found : ∀ r, s.hasRow r = true →
    next.hasRow (Sparse.moved (row + kept) (values.length - kept) r) = true ∧
      ∀ c, c ≠ column ∨ r < row ∨ row < r ∧ row + kept ≤ r →
        next.cell? (Sparse.moved (row + kept) (values.length - kept) r) c = s.cell? r c
  /-- Rows are made for values only, blank and in the styles of the first row. -/
  made : ∀ q, next.hasRow q = true →
    (∀ r, s.hasRow r = true → Sparse.moved (row + kept) (values.length - kept) r ≠ q) →
    ∃ i < values.length, q = row + i ∧ ∀ c, c ≠ column →
      next.cell? q c = (s.cell? row c).map fun cell => { style := cell.style }
  /-- A text that was pushed down is not left standing below the values. -/
  cleared : Sparse.moved (row + kept) (values.length - kept) row ≠ row →
    next.value? (Sparse.moved (row + kept) (values.length - kept) row) column = some .blank

namespace Expanded

variable {source : Source} {options : FillOptions} {s : Sheet} {row column : Nat}

theorem grown (x : Expanded source options s row column) {style : UInt32}
    (styled : s.style? row column = some style) :
    s.Grown x.after row column x.reach x.values style where
  fits := x.reach_le.trans_eq x.values_length.symm
  written _ _ at_ := x.cell?_written styled at_
  found r present := by
    rw [x.values_length]
    exact ⟨x.hasRow_rowOf present, fun c apart => x.cell?_found present apart⟩
  made q present new := by
    rw [x.values_length] at new ⊢
    obtain ⟨i, inside, rfl, fresh⟩ := x.exists_made present new
    exact ⟨i, inside, rfl, fun c apart => x.cell?_made inside fresh apart⟩
  cleared moved := by
    rw [x.values_length] at moved ⊢
    have pushed : x.reach = 0 := by
      by_contra still
      exact moved (Sparse.moved_of_lt (by omega))
    rw [pushed, Nat.add_zero, Nat.sub_zero, Sparse.moved_of_le (Nat.le_refl row)]
    exact x.cleared pushed

end Expanded

def guests : Source :=
  .ofValue (.mapping [("Guest", .sequence
    [.mapping [("Name", .text "Ann")], .mapping [], .mapping [("Name", .text "Cid")]])])

/-- A greeting with a styled cell beside it and a closing line two rows below. -/
def greetingSheet : Sheet where
  rows := .ofList
    [(0, .ofList [(0, { value := .text "Dear [Guest.Name]!", style := 7 }), (1, { style := 3 })]),
      (2, .ofList [(0, { value := .text "Yours" })])]

/-- A list of guests above a total, and a row in the last place that there can be. -/
def lastRowSheet : Sheet :=
  .ofTexts [(0, [(0, "[Guest.Name]")]), (1, [(0, "Total")]), (UInt64.size - 1, [(0, "End")])]

/-- Beside a cell in the last column no style of the row is seen. -/
example : (Sheet.expandAt guests {} false
    { rows := .ofList [(0, .ofList [(0, { value := .text "[Guest.Name]", style := 7 }),
      (UInt64.size - 1, { value := .text "Seat" })])] } 0 0 .words).target.style? 1 0 =
    some 0 := by cbv

end Stencil

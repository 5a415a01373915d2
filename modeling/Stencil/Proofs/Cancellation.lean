import Stencil.Fill.Template
import Stencil.Proofs.Attempt
import Stencil.Proofs.Sheet.Cells

/-! A fill that was called off before it began. Every way to a first change leads past a look at the
cancellation, so the target is left as it was: either the fill says that it was called off, or there
was no place at which it could have changed anything. -/

namespace Stencil

namespace Attempt

variable {σ τ α β : Type}

/-- The target as it was. The operation says that it was called off if there is something to do. -/
def calledOffIf (busy : Bool) (target : σ) (value : α) : Attempt σ α :=
  if busy then .stop target .cancelled else .done target value

theorem within_calledOffIf (busy : Bool) (target : σ) (value : α) (put : σ → τ) :
    (calledOffIf busy target value).within put = calledOffIf busy (put target) value := by
  cases busy <;> rfl

theorem andThen_calledOffIf {first second : Bool} {target : σ} {value : α} {last : β}
    {next : σ → α → Attempt σ β} (later : next target value = calledOffIf second target last) :
    (calledOffIf first target value).andThen next =
      calledOffIf (first || second) target last := by
  cases first with
  | true => rfl
  | false => exact later

/-- What is not asked for is not called off. -/
theorem optional_calledOffIf {wanted busy : Bool} {a : Attempt σ α} {target : σ} {value : α}
    (called : a = calledOffIf busy target value) :
    (if wanted then a else done target value) = calledOffIf (wanted && busy) target value := by
  cases wanted with
  | true => exact called
  | false => rfl

theorem each_of_stops {step : Nat → σ → β → Attempt σ β}
    (stops : ∀ index item carried, step index item carried = .stop item .cancelled)
    (items : List σ) (carried : β) :
    each step items carried = calledOffIf (!items.isEmpty) items carried := by
  cases items with
  | nil => rfl
  | cons item rest =>
      rw [each, eachFrom, stops]
      rfl

/-- A list is left as it was if each of its items is. -/
theorem each_calledOffIf {step : Nat → σ → β → Attempt σ β} {busy : σ → Bool}
    (steps : ∀ index item carried, step index item carried = calledOffIf (busy item) item carried)
    (items : List σ) (carried : β) :
    each step items carried = calledOffIf (items.any busy) items carried := by
  unfold each
  generalize 0 = index
  induction items generalizing index with
  | nil => rfl
  | cons item rest ih =>
      rw [eachFrom, steps, List.any_cons]
      cases busy item with
      | true => rfl
      | false =>
          rw [Bool.false_or, ← within_calledOffIf, ← ih (index + 1)]
          rfl

end Attempt

open Attempt

/-! ### Sheets -/

namespace Sheet

/-- The walk looks at the cancellation before its first row. -/
theorem walk_calledOff (visit : Visit) (bound : Nat) (s : Sheet) (report : Report)
    (c : Counting) :
    s.walk visit true bound report c = some (calledOffIf s.firstRow?.isSome s report) := by
  unfold walk
  cases first : s.firstRow? with
  | none => rfl
  | some row =>
      have there : s.hasRow row = true := ((Sparse.firstIndex?_eq_some_iff ..).1 first).1
      have high := (lt_height_iff ..).1 (lt_height there)
      dsimp only
      unfold walkFrom
      rw [if_pos high, if_pos rfl]
      rfl

theorem fill_calledOff (source : Source) (options : FillOptions) (bound : Nat) (s : Sheet)
    (report : Report) (c : Counting) :
    s.fill source options true bound report c =
      some (calledOffIf s.firstRow?.isSome s report) := by
  unfold fill
  rw [walk_calledOff]
  cases first : s.firstRow?.isSome with
  | true => rfl
  | false =>
      change s.walk (visitScalars source options) true bound report c = _
      rw [walk_calledOff, first]

/-- An expansion without items changes nothing, and one with items is called off at the first. -/
theorem expandAt_calledOff (source : Source) (options : FillOptions) (s : Sheet)
    (row column : Nat) (c : Counting) :
    ∃ busy outcome, s.expandAt source options true row column c = calledOffIf busy s outcome ∧
      outcome.filled = 0 ∧ outcome.rowsEmitted = 0 := by
  unfold expandAt
  cases s.text? row column with
  | none => exact ⟨false, {}, rfl, rfl, rfl⟩
  | some template =>
      dsimp only
      cases firstCollection? template with
      | none => exact ⟨false, {}, rfl, rfl, rfl⟩
      | some placeholder =>
          dsimp only
          cases source.items? placeholder.collection with
          | none => exact ⟨false, { unresolved := _ }, rfl, rfl, rfl⟩
          | some items =>
              cases items with
              | nil =>
                  refine ⟨false, { expanded := 1 }, ?_, rfl, rfl⟩
                  simp [Expansion.writeItems, done, Expansion.clearTemplate, calledOffIf]
              | cons item rest => exact ⟨true, {}, rfl, rfl, rfl⟩

end Sheet

namespace Workbook

def hasRows (w : Workbook) : Bool := w.sheets.any fun s => s.firstRow?.isSome

theorem fillSheets_calledOff (source : Source) (options : FillOptions) (bound : Nat)
    (sheets : List Sheet) (report : Report) (c : Counting) :
    fillSheets source options true bound sheets report c =
      some (calledOffIf (sheets.any fun s => s.firstRow?.isSome) sheets report) := by
  induction sheets with
  | nil => rfl
  | cons s rest ih =>
      rw [fillSheets, Sheet.fill_calledOff, List.any_cons]
      cases s.firstRow?.isSome with
      | true => rfl
      | false =>
          change (fillSheets source options true bound rest report c).map
            (Attempt.within (s :: ·)) = _
          rw [ih, Option.map_some, within_calledOffIf, Bool.false_or]

theorem fill_calledOff (source : Source) (options : FillOptions) (bound : Nat) (w : Workbook)
    (c : Counting) : w.fill source options true bound c = some (calledOffIf w.hasRows w {}) := by
  rw [fill, fillSheets_calledOff, Option.map_some, within_calledOffIf]
  rfl

end Workbook

/-! ### Documents -/

/-- The loop over the rows of a table looks at the cancellation before its first row. -/
theorem Table.expand_calledOff (source : Source) (options : FillOptions) (t : Table) :
    t.expand source options true = calledOffIf (!t.rows.isEmpty) t {} := by
  obtain ⟨rows⟩ := t
  cases rows <;> rfl

def Body.hasPlaces (body : Body) : Bool := !body.paragraphs.isEmpty || !body.tables.isEmpty

namespace FlowPass

/-- The loop over the paragraphs and the one over the tables look at the cancellation each time. -/
theorem fillPart_calledOff (source : Source) (options : FillOptions) (part : Part) (expand : Bool)
    (body : Body) (report : Report) :
    fillPart ⟨source, options, true⟩ part expand body report =
      calledOffIf body.hasPlaces body report := by
  have tables : each (fillTable ⟨source, options, true⟩ part expand) body.tables report =
      calledOffIf (!body.tables.isEmpty) body.tables report :=
    each_of_stops (fun index t carried => rfl) body.tables report
  unfold fillPart
  dsimp only
  rw [each_of_stops (fun index p carried => if_pos rfl), within_calledOffIf]
  apply andThen_calledOffIf
  rw [tables, within_calledOffIf]

theorem fillParts_calledOff {τ : Type} (source : Source) (options : FillOptions)
    (part : Nat → Part) (bodies : List Body) (report : Report) (put : List Body → τ) :
    (fillParts ⟨source, options, true⟩ part bodies report).within put =
      calledOffIf (bodies.any Body.hasPlaces) (put bodies) report := by
  rw [← within_calledOffIf]
  congr 1
  exact each_calledOffIf (fun index => fillPart_calledOff source options (part index) _) bodies
    report

end FlowPass

namespace Document

/-- Whether a fill under these options comes to a paragraph or a table. -/
def hasPlaces (flow : FlowOptions) (d : Document) : Bool :=
  d.body.hasPlaces || flow.headers && d.headers.any Body.hasPlaces ||
    flow.footers && d.footers.any Body.hasPlaces

theorem fill_calledOff (source : Source) (options : FillOptions) (d : Document) :
    d.fill source options true = calledOffIf (d.hasPlaces options.flow) d {} := by
  unfold fill
  dsimp only
  rw [FlowPass.fillPart_calledOff, within_calledOffIf]
  rw [andThen_calledOffIf (optional_calledOffIf (FlowPass.fillParts_calledOff ..))]
  rw [andThen_calledOffIf (optional_calledOffIf (FlowPass.fillParts_calledOff ..))]
  rfl

end Document

/-! ### Templates -/

namespace Template

/-- Whether a fill under these options comes to a row, a paragraph or a table. -/
def hasPlaces (flow : FlowOptions) : Template → Bool
  | workbook w => w.hasRows
  | document d => d.hasPlaces flow

theorem fillWith_calledOff (source : Source) (options : FillOptions) (bound : Nat) (t : Template) :
    t.fillWith source options true bound =
      some (calledOffIf (t.hasPlaces options.flow) t {}) := by
  cases t with
  | workbook w =>
      rw [fillWith, Workbook.fill_calledOff, Option.map_some, within_calledOffIf, hasPlaces]
  | document d => rw [fillWith, Document.fill_calledOff, within_calledOffIf, hasPlaces]

/-- The receiver is not called, and without data there is nothing to call off. -/
theorem fillEach_calledOff (setup : Setup) (bound : Nat) (receive : Nat → Template → Reply)
    (t : Template) (data : List Value) :
    t.fillEach { setup with cancelled := true } bound receive data =
      some ⟨[], if data.isEmpty then .ok [] else .error .cancelled⟩ := by
  cases data with
  | nil => rfl
  | cons value rest =>
      rw [fillEach, fillEachFrom, if_pos rfl]
      rfl

/-- A fill that was called off before it began leaves its target as it was, whichever way it is
asked for. A filler of templates always says so, and hands no copy over. Asked for directly, the
fill of a template, the expansion of a table and that of a sheet cell say so as well, unless they
come to no place at which they look; then they have filled nothing and written no row. -/
theorem calledOff_keeps_target (setup : Setup) (source : Source) (options : FillOptions)
    (bound : Nat) (receive : Nat → Template → Reply) (value : Value) (data : List Value)
    (t : Template) (table : Table) (s : Sheet) (row column : Nat) (c : Counting) :
    t.fill { setup with cancelled := true } bound value = some (.stop t .cancelled) ∧
    t.fillEach { setup with cancelled := true } bound receive data =
      some ⟨[], if data.isEmpty then .ok [] else .error .cancelled⟩ ∧
    t.fillWith source options true bound =
      some (if t.hasPlaces options.flow then .stop t .cancelled else .done t {}) ∧
    table.expand source options true =
      (if table.rows.isEmpty then .done table {} else .stop table .cancelled) ∧
    (s.expandAt source options true row column c = .stop s .cancelled ∨
      ∃ outcome, s.expandAt source options true row column c = .done s outcome ∧
        outcome.filled = 0 ∧ outcome.rowsEmitted = 0) := by
  refine ⟨if_pos rfl, fillEach_calledOff setup bound receive t data,
    fillWith_calledOff source options bound t, ?_, ?_⟩
  · rw [Table.expand_calledOff, calledOffIf]
    cases table.rows.isEmpty <;> rfl
  · obtain ⟨busy, outcome, ran, filled, emitted⟩ :=
      s.expandAt_calledOff source options row column c
    rw [ran]
    cases busy with
    | true => exact .inl rfl
    | false => exact .inr ⟨outcome, rfl, filled, emitted⟩

end Template

end Stencil

import Stencil.Proofs.Document.Survey
import Stencil.Proofs.Sheet.Survey

/-! The report of a fill and the survey of its template agree: where there are no collections to
expand, every scalar placeholder that the survey lists is either counted as filled or reported as
unresolved, in the order and at the place of the survey. -/

namespace Stencil

variable {source : Source} {options : FillOptions}

theorem exists_collection_of_hasPlaceholder {text : String}
    (found : hasPlaceholder .collection text = true) (location : Location) :
    ∃ use ∈ placeholdersIn text location, use.kind = .collection := by
  rw [hasPlaceholder_eq_any, Bool.not_eq_true', List.isEmpty_eq_false_iff_exists_mem] at found
  obtain ⟨o, member⟩ := found
  exact ⟨_, mem_placeholdersIn member location, rfl⟩

theorem Sheet.usesAt_subset {s : Sheet} {row column : Nat} {text : String}
    (held : s.text? row column = some text) : s.usesAt row column ⊆ s.placeholders := by
  obtain ⟨cell, present, -⟩ := (text?_eq_some_iff ..).1 held
  have high := lt_height (hasRow_of_cell? present)
  rw [placeholders_eq_usesFrom fun r _ => Nat.zero_le r]
  intro use member
  refine List.mem_flatMap.2 ⟨row, ?_, List.mem_flatMap.2 ⟨column, mem_columns present, member⟩⟩
  rw [List.mem_range'_1]
  omega

theorem Sheet.plain_of_placeholders {s : Sheet}
    (scalars : ∀ use ∈ s.placeholders, use.kind = .scalar) : s.Plain := by
  intro row column text held
  by_contra found
  rw [Bool.not_eq_false] at found
  obtain ⟨use, member, kind⟩ :=
    exists_collection_of_hasPlaceholder found (.cell s.name row column)
  have listed : use ∈ s.usesAt row column := by
    rw [usesAt, held]
    exact member
  rw [scalars use (usesAt_subset held listed)] at kind
  cases kind

theorem Workbook.fillSheets_reports {sheets : List Sheet} (plain : ∀ s ∈ sheets, s.Plain)
    (report : Report) :
    ∃ enough last, ∀ bound ≥ enough,
      fillSheets source options false bound sheets report =
        some (.done last
          (report.merge (source.reportOn (sheets.flatMap fun s => s.placeholders)))) := by
  induction sheets generalizing report with
  | nil =>
      have nothing : report.merge (source.reportOn []) = report := report.merge_empty
      exact ⟨0, [], fun _ _ => by rw [List.flatMap_nil, nothing]; rfl⟩
  | cons s rest ih =>
      obtain ⟨here, there⟩ := List.forall_mem_cons.1 plain
      obtain ⟨first, filled, fills⟩ := here.fill source options report
      obtain ⟨second, others, ends⟩ := ih there (report.merge (source.reportOn s.placeholders))
      refine ⟨max first second, filled :: others, ?_⟩
      intro bound large
      rw [List.flatMap_cons, Source.reportOn_append, ← Report.merge_assoc]
      exact fillSheets_cons (fills bound (by omega)) (ends bound (by omega))

/-- A fill reports what the survey of its template lists. In a document whose expanded tables name
no collections this goes for the body and for the headers and footers that the options ask for; in
a workbook without collections it goes for all sheets, if there are numbers behind their last rows
and columns. -/
theorem fill_reports_survey (source : Source) (options : FillOptions) :
    (∀ d : Document, (∀ t ∈ d.expandedTables options.flow, t.hasCollection = false) →
      ∃ filled, d.fill source options false =
        .done filled (source.reportOn (d.filledPlaceholders options.flow))) ∧
    ∀ (w : Workbook) (counting : Counting), (∀ s ∈ w.sheets, s.Headroom counting 0) →
      (∀ use ∈ w.placeholders counting, use.kind = .scalar) →
        ∃ enough last, ∀ bound ≥ enough, w.fill source options false bound counting =
          some (.done last (source.reportOn (w.placeholders counting))) := by
  constructor
  · intro d plain
    exact d.fill_reports plain
  · intro w counting headroom scalars
    rw [Workbook.placeholders_counted fun s member => (headroom s member).columns] at scalars ⊢
    have plain : ∀ s ∈ w.sheets, s.Plain := fun s member =>
      Sheet.plain_of_placeholders fun use inside =>
        scalars use (List.mem_flatMap.2 ⟨s, member, inside⟩)
    obtain ⟨enough, sheets, ends⟩ := Workbook.fillSheets_reports plain {}
    refine ⟨enough, ⟨sheets⟩, fun bound large => ?_⟩
    -- no row is emitted, so the headroom that there is will do
    rw [Workbook.fill_counted_iff headroom, Workbook.fill_eq_done_iff, ends bound large,
      Report.empty_merge]
    rfl

/-- A letter with a name that is cut in two, and with a list in its header. -/
def letter : Document :=
  { body := { paragraphs := [⟨[{ text := "Dear \x7bNa" }, { text := "me\x7d, {Title}" }]⟩]
              tables := [⟨[⟨[{ paragraphs := [⟨[{ text := "{Name}" }]⟩] }]⟩]⟩] }
    headers := [{ tables := [⟨[⟨[{ paragraphs := [⟨[{ text := "[Items] {Date}" }]⟩] }]⟩]⟩] }] }

/-- The address list that goes with the letter. -/
def addresses : Workbook := ⟨[Sheet.ofTexts [(2, [(1, "{Name}"), (4, "{Title} {Name}")])]]⟩

/-- The list in the header is not expanded by default, and the date beside it is reported. -/
theorem letter_reports_survey :
    ((∀ t ∈ letter.expandedTables {}, t.hasCollection = false) ∧
      ∃ filled, letter.fill (.ofValue (.mapping [("Name", .text "Ann")])) {} false =
        .done filled
          { scalarsFilled := 2
            unresolved := [⟨.paragraph .body 0, "{Title}"⟩,
              ⟨.tableCell (.header 0) 0 0 0, "{Date}"⟩] }) ∧
    ((∀ s ∈ addresses.sheets, s.Headroom .words 0) ∧
      ∀ use ∈ addresses.placeholders .words, use.kind = .scalar) ∧
      ∃ enough last, ∀ bound ≥ enough,
        addresses.fill (.ofValue (.mapping [("Name", .text "Ann")])) {} false bound .words =
          some (.done last { scalarsFilled := 2, unresolved := [⟨.cell "" 2 4, "{Title}"⟩] }) := by
  have plain : ∀ t ∈ letter.expandedTables {}, t.hasCollection = false := by
    have none : (letter.expandedTables {}).any Table.hasCollection = false := by cbv
    exact fun t member => by simpa using List.any_eq_false.1 none t member
  have onLetter : (Source.ofValue (.mapping [("Name", .text "Ann")])).reportOn
      (letter.filledPlaceholders {}) =
        { scalarsFilled := 2
          unresolved := [⟨.paragraph .body 0, "{Title}"⟩,
            ⟨.tableCell (.header 0) 0 0 0, "{Date}"⟩] } := by cbv
  have headroom : ∀ s ∈ addresses.sheets, s.Headroom .words 0 := by decide
  have scalars : ∀ use ∈ addresses.placeholders .words, use.kind = .scalar := by
    have all : (addresses.placeholders .words).all (fun use => use.kind = .scalar) = true := by
      cbv
    exact fun use member => by simpa using List.all_eq_true.1 all use member
  have onAddresses : (Source.ofValue (.mapping [("Name", .text "Ann")])).reportOn
      (addresses.placeholders .words) =
        { scalarsFilled := 2, unresolved := [⟨.cell "" 2 4, "{Title}"⟩] } := by cbv
  have documents := (fill_reports_survey (.ofValue (.mapping [("Name", .text "Ann")])) {}).1
    letter plain
  have workbooks := (fill_reports_survey (.ofValue (.mapping [("Name", .text "Ann")])) {}).2
    addresses .words headroom scalars
  rw [onLetter] at documents
  rw [onAddresses] at workbooks
  exact ⟨⟨plain, documents⟩, ⟨headroom, scalars⟩, workbooks⟩

/-- The address list in the last row that there can be. -/
def lastAddress : Workbook := ⟨[Sheet.ofTexts [(UInt64.size - 1, [(0, "{Name}")])]]⟩

/-- It is never filled: the number behind its row is zero. -/
theorem last_address_never_filled :
    ¬∀ (source : Source) (options : FillOptions) (w : Workbook),
      (∀ use ∈ w.placeholders .words, use.kind = .scalar) →
        ∃ enough last, ∀ bound ≥ enough, w.fill source options false bound .words =
          some (.done last (source.reportOn (w.placeholders .words))) := by
  intro claim
  have scalars : ∀ use ∈ lastAddress.placeholders .words, use.kind = .scalar := by
    have all : (lastAddress.placeholders .words).all (fun use => use.kind = .scalar) = true := by
      cbv
    exact fun use member => by simpa using List.all_eq_true.1 all use member
  obtain ⟨enough, last, ends⟩ :=
    claim (.ofValue (.mapping [("Name", .text "Ann")])) {} lastAddress scalars
  have plain : (Sheet.ofTexts [(UInt64.size - 1, [(0, "{Name}")])]).Plain := by
    intro row column text held
    have only := Sheet.of_allTexts (fun _ _ text => !hasPlaceholder .collection text) (by cbv) held
    simpa using only
  have never := plain.fill_eq_none (by cbv) (.ofValue (.mapping [("Name", .text "Ann")])) {}
    enough {}
  have filled := ends enough (Nat.le_refl enough)
  rw [Workbook.fill, lastAddress, Workbook.fillSheets, never] at filled
  cases filled

end Stencil

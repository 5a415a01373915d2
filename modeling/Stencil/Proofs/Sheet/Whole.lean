import Stencil.Proofs.Placeholder.Survey
import Stencil.Proofs.Sheet.Texts
import Stencil.Proofs.Value.Marks

/-! Sheets on which every text is one placeholder or has no marks in it, filled from data without
marks. What is written to such a sheet is never a placeholder itself. -/

namespace Stencil

/-- Every text of a sheet is without marks or one of the given placeholders. -/
def Sheet.Among (given : String → Prop) (s : Sheet) : Prop :=
  ∀ row column text, s.text? row column = some text → Unmarked text ∨ given text

/-- Whether a text is without marks or one placeholder. -/
def isWhole (text : String) : Bool :=
  lacksMarks text || (classify .scalar text).isSinglePlaceholder ||
    (classify .collection text).isSinglePlaceholder

theorem Sheet.among_of_allTexts {s : Sheet}
    (checked : s.allTexts (fun _ _ text => isWhole text) = true) : s.Among IsPlaceholder := by
  intro row column text held
  have here := of_allTexts (fun _ _ text => isWhole text) checked held
  simp only [isWhole, Bool.or_eq_true, lacksMarks_iff] at here
  rcases here with (unmarked | scalar) | collection
  · exact .inl unmarked
  · obtain ⟨p, -, good, same⟩ := exists_of_isSinglePlaceholder scalar
    exact .inr ⟨p, good, same⟩
  · obtain ⟨p, -, good, same⟩ := exists_of_isSinglePlaceholder collection
    exact .inr ⟨p, good, same⟩

theorem IsPlaceholder.not_unmarked {text : String} (whole : IsPlaceholder text) :
    ¬Unmarked text := by
  obtain ⟨p, good, rfl⟩ := whole
  intro unmarked
  have absent := unmarked.hasPlaceholder p.kind
  rw [hasPlaceholder_text good, beq_self_eq_true] at absent
  cases absent

namespace Source.Unmarked

variable {source : Source} {options : FillOptions} {text later : String}

theorem of_writes (data : source.Unmarked options)
    (texts : Stencil.Unmarked text ∨ IsPlaceholder text)
    (writes : Writes source options text later) : Stencil.Unmarked later := by
  obtain ⟨use, first⟩ := exists_first_of_written writes
  rcases texts with unmarked | ⟨p, good, rfl⟩
  · cases unmarked.firstCollection?.symm.trans first
  · have single := isSinglePlaceholder_text good
    rw [kind_of_firstCollection? good first] at single
    obtain ⟨use, items, item, found, -, resolves, member, property, rfl⟩ :=
      exists_of_written single writes
    exact data.items use.collection items resolves item member use.property found property

theorem shallow (data : source.Unmarked options)
    (texts : Stencil.Unmarked text ∨ IsPlaceholder text) : source.Shallow options text :=
  fun _ writes => written_of_none (data.of_writes texts writes).firstCollection?

end Source.Unmarked

namespace Sheet.Among

variable {given : String → Prop} {source : Source} {options : FillOptions} {s t : Sheet}
  {row column : Nat}

theorem mono {other : String → Prop} (among : s.Among given)
    (le : ∀ text, given text → other text) : s.Among other :=
  fun row column text held => (among row column text held).imp_right (le text)

theorem shallow (among : s.Among IsPlaceholder) (data : source.Unmarked options) (row column : Nat)
    (text : String) (held : s.text? row column = some text) : source.Shallow options text :=
  data.shallow (among row column text held)

/-! ### What a survey lists -/

variable (among : s.Among given) (whole : ∀ text, given text → IsPlaceholder text)

include among whole

theorem exists_of_mem_placeholders {use : PlaceholderUse} (member : use ∈ s.placeholders) :
    ∃ r c p, Placeholder.WellFormed p ∧ given (String.ofList p.text) ∧
      s.text? r c = some (String.ofList p.text) ∧
      use = ⟨p.kind, String.ofList p.text, .cell s.name r c⟩ := by
  rw [placeholders_eq_texts, List.mem_flatMap] at member
  obtain ⟨place, inside, listed⟩ := member
  have held := mem_texts.1 inside
  rcases among _ _ _ held with unmarked | good
  · rw [unmarked.placeholdersIn] at listed
    cases listed
  · obtain ⟨p, formed, same⟩ := whole _ good
    rw [same, placeholdersIn_text formed, List.mem_singleton] at listed
    rw [same] at good held
    exact ⟨place.row, place.column, p, formed, good, held, listed⟩

end Sheet.Among

theorem Sheet.mem_placeholders {s : Sheet} {row column : Nat} {p : Placeholder}
    (good : p.WellFormed) (held : s.text? row column = some (String.ofList p.text)) :
    ⟨p.kind, String.ofList p.text, .cell s.name row column⟩ ∈ s.placeholders := by
  rw [placeholders_eq_texts, List.mem_flatMap]
  refine ⟨⟨row, column, String.ofList p.text⟩, mem_texts.2 held, ?_⟩
  rw [placeholdersIn_text good]
  exact List.mem_singleton_self _

/-! ### What the two passes leave -/

variable {given : String → Prop} {source : Source} {options : FillOptions} {s t : Sheet}
  {row column : Nat}

theorem Expanded.among (x : Expanded source options s row column) (data : source.Unmarked options)
    (whole : ∀ text, given text → IsPlaceholder text) (among : s.Among given) :
    x.after.Among given := by
  intro r c text held
  rcases x.text_origin held with ⟨i, -, -, written⟩ | ⟨q, -, -, before⟩
  · have texts := (among row column x.template x.holds).imp_right (whole _)
    exact .inl (data.of_writes texts (x.writes written))
  · exact among q c text before

namespace Source.Unmarked

/-- A placeholder that is exchanged for a value gives way to a text without marks. -/
theorem filledValue?_cases (data : source.Unmarked options) {before text : String}
    (whole : IsPlaceholder before)
    (filled : ((source.filledValue? options before).getD (.text before)).text? = some text) :
    Stencil.Unmarked text ∨ text = before ∧ source.filledValue? options text = none := by
  obtain ⟨p, good, rfl⟩ := whole
  cases kind : p.kind with
  | collection =>
      have scalars := hasPlaceholder_text good .scalar
      rw [kind] at scalars
      have none : source.filledValue? options (String.ofList p.text) = none :=
        filledValue?_of_none scalars
      rw [none] at filled
      cases filled
      exact .inr ⟨rfl, none⟩
  | scalar =>
      have value := source.filledValue?_text options good kind
      cases found : source.get? p.path with
      | none =>
          rw [found] at value
          rw [value] at filled
          cases filled
          exact .inr ⟨rfl, value⟩
      | some resolved =>
          rw [value, found, Option.map_some, Option.getD_some] at filled
          have written : resolved.toCell options = .text text := CellValue.eq_of_text? filled
          rw [CellValue.eq_render_of_ofValue written]
          exact .inl (data.values p.path resolved found)

end Source.Unmarked

/-- The texts of a sheet after the scalar pass, from those before it. -/
theorem Sheet.text?_of_refilled
    (refilled : ∀ r c, t.cell? r c = (s.cell? r c).map (Cell.refilled source options)) (r c : Nat) :
    t.text? r c = (s.text? r c).bind fun text =>
      ((source.filledValue? options text).getD (.text text)).text? := by
  rw [text?, value?, refilled, text?, value?]
  cases s.cell? r c with
  | none => rfl
  | some cell =>
      rw [Option.map_some, Option.map_some, Option.bind_some, Option.map_some, Option.bind_some,
        Cell.refilled]
      cases shape : cell.value <;> rfl

/-- After the scalar pass a placeholder is left only where it was before. -/
theorem Sheet.Among.refilled (among : s.Among given)
    (whole : ∀ text, given text → IsPlaceholder text) (data : source.Unmarked options)
    (refilled : ∀ r c, t.cell? r c = (s.cell? r c).map (Cell.refilled source options))
    {r c : Nat} {text : String} (held : t.text? r c = some text) :
    Unmarked text ∨ given text ∧ s.text? r c = some text ∧
      source.filledValue? options text = none := by
  rw [text?_of_refilled refilled] at held
  obtain ⟨before, there, filled⟩ := Option.bind_eq_some_iff.1 held
  rcases among r c before there with unmarked | good
  · rw [Source.filledValue?_of_none (unmarked.hasPlaceholder .scalar)] at filled
    cases filled
    exact .inl unmarked
  · rcases data.filledValue?_cases (whole before good) filled with unmarked | ⟨rfl, none⟩
    · exact .inl unmarked
    · exact .inr ⟨good, there, none⟩

end Stencil

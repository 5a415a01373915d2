import Mathlib
import Stencil.Options.Reading
import Stencil.Value.Render

/-! Which date patterns a date can be written in. Reading a pattern only looks for unknown letters;
writing also fails for the parts that a date does not have, which are the time zones. -/

namespace Stencil

namespace Calendar

theorem Item.write?_eq_none_iff (t : DateTime) (item : Item) :
    item.write? t = none ↔ .zone = item := by
  cases item <;> simp [Item.write?]

/-- A date has all the parts but a time zone. -/
theorem writeItems?_eq_none_iff (t : DateTime) (items : List Item) :
    writeItems? t items = none ↔ .zone ∈ items := by
  induction items with
  | nil => simp [writeItems?]
  | cons item rest ih =>
      rw [writeItems?, List.mem_cons, ← ih, ← Item.write?_eq_none_iff t item]
      cases item.write? t <;> cases writeItems? t rest <;> simp

/-! ### Specifiers -/

/-- What stands behind a percent sign for a time zone or an offset from it. -/
def zoneMarks : List (List Char) :=
  [['Z'], ['z'], ['+'], ['#', 'z'], [':', 'z'], [':', ':', 'z'], [':', ':', ':', 'z']]

theorem specifier?_of_mem_zoneMarks {mark : List Char} (member : mark ∈ zoneMarks)
    (rest : List Char) : specifier? (mark ++ rest) = some ([.zone], rest) := by
  simp only [zoneMarks, List.mem_cons, List.not_mem_nil, or_false] at member
  rcases member with rfl | rfl | rfl | rfl | rfl | rfl | rfl <;> rfl

theorem mem_zoneMarks_of_ofLetter? {c : Char} {items : List Item}
    (found : Item.ofLetter? c = some items) : .zone ∈ items → [c] ∈ zoneMarks := by
  unfold Item.ofLetter? at found
  split at found <;> cases found <;> decide

/-- No padding can be chosen for a time zone. -/
theorem zone_not_mem_padded {padding : Padding} {c : Char} {rest remaining : List Char}
    {items : List Item} (found : specifier?.padded padding c rest = some (items, remaining)) :
    .zone ∉ items := by
  unfold specifier?.padded at found
  obtain ⟨_, padded, same⟩ := Option.map_eq_some_iff.1 found
  obtain ⟨_, -, single⟩ := Option.bind_eq_some_iff.1 padded
  unfold Item.withPadding? at single
  split at single <;> cases single
  cases same
  simp

theorem zone_not_mem_fixedFraction {point : Bool} {places : Option Nat} {rest remaining : List Char}
    {items : List Item}
    (found : places.map (fun n => ([Item.fixedFraction point n], rest)) = some (items, remaining)) :
    .zone ∉ items := by
  obtain ⟨_, -, same⟩ := Option.map_eq_some_iff.1 found
  cases same
  simp

theorem exists_mark_of_zone_mem {text rest : List Char} {items : List Item}
    (found : specifier? text = some (items, rest)) (zone : .zone ∈ items) :
    ∃ mark ∈ zoneMarks, text = mark ++ rest := by
  unfold specifier? at found
  split at found
  · exact absurd zone (zone_not_mem_padded found)
  · exact absurd zone (zone_not_mem_padded found)
  · exact absurd zone (zone_not_mem_padded found)
  · cases found
    exact ⟨['#', 'z'], by decide, rfl⟩
  · cases found
    exact ⟨[':', ':', ':', 'z'], by decide, rfl⟩
  · cases found
    exact ⟨[':', ':', 'z'], by decide, rfl⟩
  · cases found
    exact ⟨[':', 'z'], by decide, rfl⟩
  · cases found
    simp at zone
  · exact absurd zone (zone_not_mem_fixedFraction found)
  · split at found
    · rename_i letter
      cases found
      exact ⟨_, mem_zoneMarks_of_ofLetter? letter zone, rfl⟩
    · split at found
      · exact absurd zone (zone_not_mem_fixedFraction found)
      · cases found
  · cases found

theorem zone_mem_specifier?_iff {text rest : List Char} {items : List Item}
    (found : specifier? text = some (items, rest)) :
    .zone ∈ items ↔ ∃ mark ∈ zoneMarks, text = mark ++ rest := by
  constructor
  · exact exists_mark_of_zone_mem found
  · rintro ⟨mark, member, rfl⟩
    rw [specifier?_of_mem_zoneMarks member] at found
    cases found
    exact List.mem_singleton_self _

/-- A pattern with a time zone among its specifiers. -/
inductive AsksForZone : List Char → Prop
  | here {mark : List Char} (member : mark ∈ zoneMarks) (rest : List Char) :
      AsksForZone ('%' :: (mark ++ rest))
  | behind {text rest : List Char} {items : List Item}
      (found : specifier? text = some (items, rest)) (later : AsksForZone rest) :
      AsksForZone ('%' :: text)
  | plain {c : Char} {rest : List Char} (plain : c ≠ '%') (later : AsksForZone rest) :
      AsksForZone (c :: rest)

theorem zone_mem_patternItems?_iff {pattern : List Char} {items : List Item}
    (read : patternItems? pattern = some items) : .zone ∈ items ↔ AsksForZone pattern := by
  fun_induction patternItems? pattern generalizing items with
  | case1 =>
      cases read
      exact ⟨nofun, nofun⟩
  | case2 rest none => cases read
  | case3 rest front remaining found _ ih =>
      obtain ⟨back, following, rfl⟩ := Option.map_eq_some_iff.1 read
      rw [List.mem_append, zone_mem_specifier?_iff found, ih following]
      constructor
      · rintro (⟨mark, member, rfl⟩ | later)
        · exact .here member remaining
        · exact .behind found later
      · intro asks
        cases asks with
        | here member rest =>
            rw [specifier?_of_mem_zoneMarks member] at found
            cases found
            exact .inl ⟨_, member, rfl⟩
        | behind found' later =>
            rw [found] at found'
            cases found'
            exact .inr later
        | plain plain later => exact absurd rfl plain
  | case4 c rest plain ih =>
      obtain ⟨back, following, rfl⟩ := Option.map_eq_some_iff.1 read
      rw [List.mem_cons, ih following]
      constructor
      · rintro (clash | later)
        · cases clash
        · exact .plain plain later
      · intro asks
        cases asks with
        | here => exact absurd rfl plain
        | behind => exact absurd rfl plain
        | plain _ later => exact .inr later

/-- Writing a date in a pattern that can be read fails only for a time zone. -/
theorem DateTime.format?_eq_none_iff {pattern : String} (good : isPattern pattern = true)
    (t : DateTime) : t.format? pattern = none ↔ AsksForZone pattern.toList := by
  obtain ⟨items, read⟩ := Option.isSome_iff_exists.1 good
  rw [← zone_mem_patternItems?_iff read, ← writeItems?_eq_none_iff t, format?, read]
  cases written : writeItems? t items <;> simp [written]

end Calendar

open Calendar

namespace FillOptions

theorem validate_eq_ok_iff (options : FillOptions) :
    options.validate = .ok () ↔ isPattern options.dateFormat = true := by
  unfold validate
  split <;> simp [*]

/-- Options are read from a text only if they are valid. -/
theorem validate_of_ofText {content : String} {options : FillOptions}
    (read : ofText content = .ok options) : options.validate = .ok () := by
  unfold ofText at read
  split at read
  · cases read
  · rename_i found _
    cases checked : found.validate with
    | error e =>
        rw [checked] at read
        cases read
    | ok _ =>
        rw [checked] at read
        cases read
        exact checked

/-- Under options that were accepted, a date without a field format is written in their pattern if
no time zone is among its specifiers. A pattern with a time zone is accepted as well, and with it
every date is written in the standard form. -/
theorem render_date_of_accepted (options : FillOptions)
    (accepted : options.validate = .ok () ∨ ∃ content, ofText content = .ok options)
    (t : DateTime) :
    (¬ AsksForZone options.dateFormat.toList →
      t.format? options.dateFormat = some ((Value.date t).render options none)) ∧
    (AsksForZone options.dateFormat.toList →
      t.format? options.dateFormat = none ∧
        (Value.date t).render options none = t.standard) := by
  have valid : options.validate = .ok () :=
    accepted.elim id fun ⟨_, read⟩ => validate_of_ofText read
  have written : (Value.date t).render options none =
      (t.format? options.dateFormat).getD t.standard := rfl
  have fails := t.format?_eq_none_iff ((validate_eq_ok_iff options).1 valid)
  rw [written]
  constructor
  · intro plain
    obtain ⟨text, formatted⟩ := Option.ne_none_iff_exists'.1 (mt fails.1 plain)
    rw [formatted, Option.getD_some]
  · intro asks
    rw [fails.2 asks]
    exact ⟨rfl, rfl⟩

/-- Half past eight on the second of September 2024. -/
def morning : DateTime := ⟨⟨2024, 9, 2, by decide, by decide⟩, ⟨8, 30, 0, 0, by decide⟩⟩

/-- A file of options whose pattern is used, and options whose pattern is passed over. -/
theorem morning_in_accepted_patterns :
    ofText "date_format = \"%d %B\"" = .ok { dateFormat := "%d %B" } ∧
    ¬ AsksForZone "%d %B".toList ∧
    morning.format? "%d %B" =
      some ((Value.date morning).render { dateFormat := "%d %B" } none) ∧
    (Value.date morning).render { dateFormat := "%d %B" } none = "02 September" ∧
    ({ dateFormat := "%H:%M %z" } : FillOptions).validate = .ok () ∧
    AsksForZone "%H:%M %z".toList ∧
    (Value.date morning).render { dateFormat := "%H:%M %z" } none = "2024-09-02 08:30:00" := by
  have file : ofText "date_format = \"%d %B\"" = .ok { dateFormat := "%d %B" } := by cbv
  have day : patternItems? "%d %B".toList =
      some [.number .day .zero, .literal ' ', .monthName false] := by cbv
  have plain : ¬ AsksForZone "%d %B".toList := by
    rw [← zone_mem_patternItems?_iff day]
    decide
  have valid : ({ dateFormat := "%H:%M %z" } : FillOptions).validate = .ok () := by cbv
  have offset : patternItems? "%H:%M %z".toList =
      some [.number .hour .zero, .literal ':', .number .minute .zero, .literal ' ', .zone] := by cbv
  have asks : AsksForZone "%H:%M %z".toList := by
    rw [← zone_mem_patternItems?_iff offset]
    decide
  have standard : morning.standard = "2024-09-02 08:30:00" := by cbv
  have used := (render_date_of_accepted _ (.inr ⟨_, file⟩) morning).1 plain
  have passed := ((render_date_of_accepted _ (.inl valid) morning).2 asks).2
  exact ⟨file, plain, used, by cbv, valid, asks, passed.trans standard⟩

/-- Options are accepted with a pattern for a time zone, in which no date can be written. -/
theorem accepted_pattern_is_passed_over :
    ¬ ∀ (options : FillOptions) (t : DateTime), options.validate = .ok () →
      t.format? options.dateFormat = some ((Value.date t).render options none) := by
  intro all
  have written := all { dateFormat := "%H:%M %z" } morning (by cbv)
  rw [show morning.format? "%H:%M %z" = none by cbv] at written
  cases written

end FillOptions

end Stencil

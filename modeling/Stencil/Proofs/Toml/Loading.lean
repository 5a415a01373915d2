import Mathlib
import Stencil.DataFile
import Stencil.Proofs.Toml.Moment

/-! Data from TOML: arrays and tables keep their items, keys and order, and every date in them keeps
what is written of it, as long as its seconds are written. -/

namespace Stencil.Toml

/-- Every integer fits a signed word. A document with any other is refused. -/
inductive Narrow : Toml → Prop
  | text (content : String) : Narrow (.text content)
  | integer (n : Int64) : Narrow (.integer n.toInt)
  | float (x : Binary64) : Narrow (.float x)
  | boolean (b : Bool) : Narrow (.boolean b)
  | moment (m : Moment) : Narrow (.moment m)
  | array {items : List Toml} (each : ∀ item ∈ items, Narrow item) : Narrow (.array items)
  | table {entries : List (String × Toml)} (each : ∀ entry ∈ entries, Narrow entry.2) :
      Narrow (.table entries)

/-- What a tree becomes as data. -/
inductive Loads : Toml → Value → Prop
  | text (content : String) : Loads (.text content) (.text content)
  | integer (n : Int64) : Loads (.integer n.toInt) (.int n)
  | float (x : Binary64) : Loads (.float x) (.float x)
  | boolean (b : Bool) : Loads (.boolean b) (.bool b)
  | day {day : Day} {t : Calendar.DateTime} (date : t.date = day.toDate)
      (hour : t.clock.hour = 0) (minute : t.clock.minute = 0) (second : t.clock.second = 0)
      (nanosecond : t.clock.nanosecond = 0) : Loads (.moment (.date day)) (.date t)
  /-- The local reading, whatever the offset. -/
  | dateTime {day : Day} {clock : TimeOfDay} {offset : Option Offset} {s : Seconds}
      {t : Calendar.DateTime} (written : clock.seconds = some s) (date : t.date = day.toDate)
      (hour : t.clock.hour = clock.hour) (minute : t.clock.minute = clock.minute)
      (second : t.clock.second = s.whole)
      (nanosecond : t.clock.nanosecond = s.nanosecond.getD 0) :
      Loads (.moment (.dateTime day clock offset)) (.date t)
  | withoutSeconds {day : Day} {clock : TimeOfDay} {offset : Option Offset}
      (absent : clock.seconds = none) : Loads (.moment (.dateTime day clock offset))
        (.text (String.ofList (Moment.dateTime day clock offset).toText))
  | time (clock : TimeOfDay) : Loads (.moment (.time clock)) (.text (String.ofList clock.toText))
  | array {items : List Toml} {values : List Value} (each : List.Forall₂ Loads items values) :
      Loads (.array items) (.sequence values)
  | table {entries : List (String × Toml)} {fields : List (String × Value)}
      (keys : fields.map Prod.fst = entries.map Prod.fst)
      (each : List.Forall₂ Loads (entries.map Prod.snd) (fields.map Prod.snd)) :
      Loads (.table entries) (.mapping fields)

theorem Moment.loads (m : Moment) : Loads (.moment m) m.toValue := by
  cases m with
  | date day =>
      rw [toValue_date]
      exact .day rfl rfl rfl rfl rfl
  | time clock =>
      rw [toValue_time]
      exact .time clock
  | dateTime day clock offset =>
      cases written : clock.seconds with
      | none =>
          rw [toValue_dateTime_of_none day written]
          exact .withoutSeconds written
      | some s =>
          rw [toValue_dateTime day written]
          exact .dateTime written rfl rfl rfl rfl rfl

theorem toValue?_integer (n : Int64) : toValue? (.integer n.toInt) = some (.int n) := by
  have low : -(1 <<< 63 : Nat) ≤ n.toInt := Int64.le_toInt n
  have high : n.toInt < (1 <<< 63 : Nat) := Int64.toInt_lt n
  rw [toValue?, if_pos ⟨low, high⟩, Int64.ofInt_toInt]

theorem exists_itemValues {items : List Toml}
    (each : ∀ item ∈ items, ∃ value, item.toValue? = some value ∧ Loads item value) :
    ∃ values, itemValues? items = some values ∧ List.Forall₂ Loads items values := by
  induction items with
  | nil => exact ⟨[], rfl, .nil⟩
  | cons item rest ih =>
      obtain ⟨value, first, loads⟩ := each item (List.mem_cons_self ..)
      obtain ⟨values, others, all⟩ := ih fun next member => each next (List.mem_cons_of_mem _ member)
      refine ⟨value :: values, ?_, .cons loads all⟩
      rw [itemValues?, first, others]
      rfl

theorem exists_entryValues {entries : List (String × Toml)}
    (each : ∀ entry ∈ entries, ∃ value, entry.2.toValue? = some value ∧ Loads entry.2 value) :
    ∃ fields, entryValues? entries = some fields ∧ fields.map Prod.fst = entries.map Prod.fst ∧
      List.Forall₂ Loads (entries.map Prod.snd) (fields.map Prod.snd) := by
  induction entries with
  | nil => exact ⟨[], rfl, rfl, .nil⟩
  | cons entry rest ih =>
      obtain ⟨key, inner⟩ := entry
      obtain ⟨value, first, loads⟩ := each (key, inner) (List.mem_cons_self ..)
      obtain ⟨fields, others, keys, all⟩ :=
        ih fun next member => each next (List.mem_cons_of_mem _ member)
      refine ⟨(key, value) :: fields, ?_, ?_, .cons loads all⟩
      · rw [entryValues?, first, others]
        rfl
      · rw [List.map_cons, List.map_cons, keys]

theorem Narrow.exists_loads {tree : Toml} (narrow : Narrow tree) :
    ∃ value, tree.toValue? = some value ∧ Loads tree value := by
  induction narrow with
  | text content => exact ⟨_, rfl, .text content⟩
  | integer n => exact ⟨_, toValue?_integer n, .integer n⟩
  | float x => exact ⟨_, rfl, .float x⟩
  | boolean b => exact ⟨_, rfl, .boolean b⟩
  | moment m => exact ⟨_, rfl, m.loads⟩
  | array _ each =>
      obtain ⟨values, read, loads⟩ := exists_itemValues each
      exact ⟨.sequence values, by rw [toValue?, read, Option.map_some], .array loads⟩
  | table _ each =>
      obtain ⟨fields, read, keys, loads⟩ := exists_entryValues each
      exact ⟨.mapping fields, by rw [toValue?, read, Option.map_some], .table keys loads⟩

/-- A TOML document that is admitted becomes data in which every date that is written with its
seconds or without a time is that date, at any depth. -/
theorem readData_keeps_dates {content : String} {entries : List (String × Toml)}
    (admitted : read? content = some entries) (narrow : Narrow (.table entries)) (path : String) :
    ∃ value, readData content "toml" path = .ok value ∧ Loads (.table entries) value := by
  obtain ⟨value, loaded, loads⟩ := narrow.exists_loads
  have known : DataFormat.ofName? "toml" = some .toml := by decide
  have read : DataFormat.read? content .toml = some value := by
    rw [DataFormat.read?, readValue?, admitted, Option.bind_some, loaded]
  refine ⟨value, ?_, loads⟩
  rw [readData, known]
  dsimp only
  rw [read]

/-- A plan with a leap second in a list, and below it a day in a table and a time. -/
def planText : String :=
  "[plan]\nstops = [2016-12-31T23:59:60.000000250+01:00, \x7bday = 2020-02-29\x7d]\nleave = 08:30\n"

/-- The last second of a year that has one more. -/
def leapSecond : Moment :=
  .dateTime ⟨⟨2016, 12, 31, by decide, by decide⟩, by decide⟩
    ⟨23, 59, some ⟨60, some 250, by decide⟩, by decide⟩ (some (.minutes 60 (by decide)))

def planEntries : List (String × Toml) :=
  [("plan", .table [
    ("stops", .array [.moment leapSecond,
      .table [("day", .moment (.date ⟨⟨2020, 2, 29, by decide, by decide⟩, by decide⟩))]]),
    ("leave", .moment (.time ⟨8, 30, none, by decide⟩))])]

theorem narrow_plan : Narrow (.table planEntries) := by
  have day : ∀ d, Narrow (.table [("day", .moment (.date d))]) := fun d =>
    .table (List.forall_mem_singleton.2 (.moment _))
  have stops : ∀ d, Narrow (.array [.moment leapSecond, .table [("day", .moment (.date d))]]) :=
    fun d => .array (List.forall_mem_cons.2
      ⟨.moment _, List.forall_mem_singleton.2 (day d)⟩)
  exact .table (List.forall_mem_singleton.2 (.table (List.forall_mem_cons.2
    ⟨stops _, List.forall_mem_singleton.2 (.moment _)⟩)))

def planValue : Value :=
  .mapping [("plan", .mapping [
    ("stops", .sequence [
      .date ⟨⟨2016, 12, 31, by decide, by decide⟩, ⟨23, 59, 60, 250, by decide⟩⟩,
      .mapping [("day", .date ⟨⟨2020, 2, 29, by decide, by decide⟩, .midnight⟩)]]),
    ("leave", .text "08:30")])]

/-- The leap second is kept with its fraction and without its offset, the day is its midnight, and
the time is text. -/
theorem plan_keeps_dates :
    read? planText = some planEntries ∧ Narrow (.table planEntries) ∧
      readData planText "toml" "plan.toml" = .ok planValue ∧
      Loads (.table planEntries) planValue := by
  have admitted : read? planText = some planEntries := by cbv
  have known : readData planText "toml" "plan.toml" = .ok planValue := by cbv
  obtain ⟨value, loaded, loads⟩ := readData_keeps_dates admitted narrow_plan "plan.toml"
  have same : value = planValue := Except.ok.inj (loaded.symm.trans known)
  exact ⟨admitted, narrow_plan, known, same ▸ loads⟩

/-- A date-time without seconds is admitted, and what becomes of it is text. -/
theorem meeting_stays_text :
    read? "when = 2024-09-02T08:30" = some [("when", .moment (.dateTime
        ⟨⟨2024, 9, 2, by decide, by decide⟩, by decide⟩ ⟨8, 30, none, by decide⟩ none))] ∧
      readData "when = 2024-09-02T08:30" "toml" "data.toml" =
        .ok (.mapping [("when", .text "2024-09-02T08:30")]) ∧
      ¬∃ t, readData "when = 2024-09-02T08:30" "toml" "data.toml" =
        .ok (.mapping [("when", .date t)]) := by
  have loaded : readData "when = 2024-09-02T08:30" "toml" "data.toml" =
      .ok (.mapping [("when", .text "2024-09-02T08:30")]) := by cbv
  refine ⟨by cbv, loaded, ?_⟩
  rintro ⟨t, dated⟩
  rw [loaded] at dated
  cases dated

end Stencil.Toml

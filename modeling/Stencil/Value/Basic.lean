import Stencil.Binary64
import Stencil.Calendar.DateTime

/-! The data that templates are filled from. -/

namespace Stencil

/-- A field of a typed object, with the pattern its dates are written in. -/
structure FieldDescriptor where
  name : String
  format : Option String
  deriving DecidableEq, Repr

/-- What a typed object says about itself. -/
structure Schema where
  typeName : String
  fields : List FieldDescriptor
  deriving DecidableEq, Repr

def Schema.field? (schema : Schema) (name : String) : Option FieldDescriptor :=
  schema.fields.find? fun field => field.name == name

/-- A node of the data. A record is a typed object: it answers for the fields of its schema
and for entries of its own, and is the same as another record only if both have one
identity. -/
inductive Value where
  | null
  | bool (value : Bool)
  | int (value : Int64)
  | float (value : Binary64)
  | text (value : String)
  | date (value : Calendar.DateTime)
  | sequence (items : List Value)
  | mapping (entries : List (String × Value))
  | record (identity : Nat) (schema : Schema) (field entry : String → Option Value)
      (entryKeys : List String)

instance : Inhabited Value := ⟨.null⟩

/-- Entries under their keys: a key that comes again keeps its first place and takes the last
value. -/
def insertEntry {α : Type} (key : String) (value : α) :
    List (String × α) → List (String × α)
  | [] => [(key, value)]
  | (k, v) :: rest => if k = key then (k, value) :: rest else (k, v) :: insertEntry key value rest

def entriesOf {α : Type} (pairs : List (String × α)) : List (String × α) :=
  pairs.foldl (fun entries (key, value) => insertEntry key value entries) []

/-- The value under a key, the first one where a key comes more than once. -/
def atKey? {α : Type} (key : String) : List (String × α) → Option α
  | [] => none
  | (k, v) :: rest => if k = key then some v else atKey? key rest

theorem atKey?_insertEntry_self {α : Type} (key : String) (value : α)
    (entries : List (String × α)) : atKey? key (insertEntry key value entries) = some value := by
  induction entries with
  | nil => simp [insertEntry, atKey?]
  | cons head rest ih =>
      obtain ⟨k, v⟩ := head
      by_cases same : k = key <;> simp [insertEntry, atKey?, same, ih]

theorem atKey?_insertEntry_of_ne {α : Type} {key other : String} (apart : other ≠ key)
    (value : α) (entries : List (String × α)) :
    atKey? other (insertEntry key value entries) = atKey? other entries := by
  induction entries with
  | nil => simp [insertEntry, atKey?, apart.symm]
  | cons head rest ih =>
      obtain ⟨k, v⟩ := head
      by_cases same : k = key
      · subst same
        simp [insertEntry, atKey?, apart.symm]
      · simp only [insertEntry, if_neg same, atKey?, ih]

namespace Value

def ofEntries (pairs : List (String × Value)) : Value := .mapping (entriesOf pairs)

/-- An integer, as a floating point number where a signed word cannot hold it. -/
def ofInteger (n : Int) : Value :=
  if -(1 <<< 63 : Nat) ≤ n ∧ n < (1 <<< 63 : Nat) then .int (Int64.ofInt n)
  else .float (.ofRatio (n < 0) n.natAbs 1)

def isNull : Value → Bool
  | .null => true
  | _ => false

def items? : Value → Option (List Value)
  | .sequence items => some items
  | _ => none

def kind : Value → String
  | .null => "null"
  | .bool _ => "bool"
  | .int _ => "int"
  | .float _ => "float"
  | .text _ => "text"
  | .date _ => "date"
  | .sequence _ => "sequence"
  | .mapping _ => "mapping"
  | .record .. => "record"

end Value

end Stencil

import TracedGrammar.Text.Span

/-!
# Values

What a match yields: nothing for an optional part that is missing, text for leaves, lists for
repetitions, and records for sequences. A record keeps its fields in the order of their first
insertion; a rule that wraps it adds its name as the tag and the span it matched.
-/

namespace TracedGrammar

/-- Named fields in insertion order, with the tag and the span that a rule adds. -/
structure Record (α : Type) where
  tag : Option String := none
  span : Option Span := none
  fields : List (String × α) := []
deriving DecidableEq

namespace Record

/-- The record without fields, tag and span. -/
def empty : Record α := {}

/-- The fields after an insertion: a field of that name keeps its place and gets the new value, a
new one goes to the end. -/
def insertField (name : String) (value : α) : List (String × α) → List (String × α)
  | [] => [(name, value)]
  | field :: fields =>
      if field.1 = name then (field.1, value) :: fields
      else field :: insertField name value fields

/-- The record with a field set. -/
def insert (record : Record α) (name : String) (value : α) : Record α :=
  { record with fields := insertField name value record.fields }

/-- The value of a field. -/
def get? (record : Record α) (name : String) : Option α :=
  record.fields.lookup name

/-- The names of the fields in order. -/
def names (record : Record α) : List String :=
  record.fields.map (·.1)

/-- Whether there is a field of that name. -/
def has (record : Record α) (name : String) : Bool :=
  (record.get? name).isSome

theorem lookup_field (key name : String) (value : α) (fields : List (String × α)) :
    ((name, value) :: fields).lookup key =
      if key = name then some value else fields.lookup key := by
  by_cases h : key = name
  · simp [h]
  · simp [List.lookup_cons, h, beq_false_of_ne h]

theorem lookup_insertField (name key : String) (value : α) (fields : List (String × α)) :
    (insertField name value fields).lookup key =
      if key = name then some value else fields.lookup key := by
  induction fields with
  | nil => rw [insertField, lookup_field]
  | cons field fields ih =>
      obtain ⟨first, old⟩ := field
      by_cases same : first = name
      · subst same
        simp only [insertField, if_true, lookup_field]
        split <;> rfl
      · simp only [insertField, same, if_false, lookup_field, ih]
        by_cases h : key = name
        · simp [h, Ne.symm same]
        · simp [h]

/-- Reading after an insertion sees the new value under its name and the old ones elsewhere. -/
theorem get?_insert (record : Record α) (name key : String) (value : α) :
    (record.insert name value).get? key = if key = name then some value else record.get? key :=
  lookup_insertField name key value record.fields

theorem map_fst_insertField (name : String) (value : α) (fields : List (String × α)) :
    (insertField name value fields).map (·.1) =
      if name ∈ fields.map (·.1) then fields.map (·.1) else fields.map (·.1) ++ [name] := by
  induction fields with
  | nil => simp [insertField]
  | cons field fields ih =>
      by_cases same : field.1 = name
      · simp [insertField, same]
      · have other : name ≠ field.1 := fun h => same h.symm
        simp only [insertField, same, if_false, List.map_cons, ih, List.mem_cons, other, false_or]
        split <;> simp

/-- An insertion adds its name at the end unless it is there already. -/
theorem names_insert (record : Record α) (name : String) (value : α) :
    (record.insert name value).names =
      if name ∈ record.names then record.names else record.names ++ [name] :=
  map_fst_insertField name value record.fields

end Record

/-- The result of a match. -/
inductive Value where
  | absent
  | text (content : String)
  | list (items : List Value)
  | record (content : Record Value)

namespace Value

instance : Inhabited Value := ⟨absent⟩

/-- The kind of a value, as messages name it. -/
def kindName : Value → String
  | absent => "Absent"
  | text _ => "Text"
  | list _ => "List"
  | record _ => "Record"

/-- Whether the value stands for a missing optional part. -/
def isAbsent : Value → Bool
  | absent => true
  | _ => false

/-- The content of a text. -/
def asText? : Value → Option String
  | text content => some content
  | _ => none

/-- The items of a list. -/
def asList? : Value → Option (List Value)
  | list items => some items
  | _ => none

/-- The content of a record. -/
def asRecord? : Value → Option (Record Value)
  | record content => some content
  | _ => none

/-- The content of a record, and the empty record for any other value. -/
def toRecord : Value → Record Value
  | record content => content
  | _ => .empty

/-- The value of a record's field. -/
def get? (value : Value) (name : String) : Option Value :=
  value.asRecord?.bind (·.get? name)

end Value

end TracedGrammar

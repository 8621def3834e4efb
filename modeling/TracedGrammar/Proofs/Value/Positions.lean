import TracedGrammar.Value

/-!
# Positions in a value

A position below a value is a path that says, step by step, which of the children to go to. What is
said about all records of a value is said about the records at its positions, and comes down to the
value itself and its children (`Value.all_records_iff`).
-/

namespace TracedGrammar.Value

/-- The values right below a value: the items of a list, or what the fields of a record hold. -/
def children : Value → List Value
  | .list items => items
  | .record content => content.fields.map (·.2)
  | .absent | .text _ => []

/-- The value at a position below a value, where each step says which of the children to go to. -/
def at? (value : Value) : List Nat → Option Value
  | [] => some value
  | step :: path => (value.children[step]?).bind (·.at? path)

/-- The span of the record at a position. -/
def spanAt? (value : Value) (path : List Nat) : Option Span :=
  ((value.at? path).bind asRecord?).bind (·.span)

/-- All records in a value are such, the value itself included. -/
def AllRecords (such : Record Value → Prop) (value : Value) : Prop :=
  ∀ path record, value.at? path = some (.record record) → such record

variable {value : Value} {path : List Nat}

theorem at_cons_eq_some_iff {step : Nat} {found : Value} :
    value.at? (step :: path) = some found ↔
      ∃ child, value.children[step]? = some child ∧ child.at? path = some found :=
  Option.bind_eq_some_iff

theorem at_append (value : Value) (path further : List Nat) :
    value.at? (path ++ further) = (value.at? path).bind (·.at? further) := by
  induction path generalizing value with
  | nil => rfl
  | cons step path ih =>
      rw [List.cons_append, at?, at?, Option.bind_assoc]
      exact congrArg _ (funext fun child => ih child)

/-- A span is that of a record. -/
theorem span_at_eq_some_iff {span : Span} :
    value.spanAt? path = some span ↔
      ∃ record, value.at? path = some (.record record) ∧ record.span = some span := by
  rw [spanAt?, Option.bind_assoc]
  constructor
  · intro h
    obtain ⟨found, at_path, h⟩ := Option.bind_eq_some_iff.mp h
    cases found with
    | record record => exact ⟨record, at_path, h⟩
    | absent => cases h
    | text content => cases h
    | list items => cases h
  · rintro ⟨record, at_path, span_eq⟩
    rw [at_path]
    exact span_eq

theorem span_at_append {further : List Nat} {span : Span} :
    value.spanAt? (path ++ further) = some span ↔
      ∃ found, value.at? path = some found ∧ found.spanAt? further = some span := by
  rw [spanAt?, at_append, Option.bind_assoc, Option.bind_assoc, Option.bind_eq_some_iff]
  simp only [spanAt?, Option.bind_assoc]

/-- The records in a value are the value, if it is one, and those in its children. -/
theorem all_records_iff {such : Record Value → Prop} :
    value.AllRecords such ↔ (∀ record, value = .record record → such record) ∧
      ∀ child ∈ value.children, child.AllRecords such := by
  constructor
  · refine fun all => ⟨fun record same => all [] record (by rw [at?, same]), ?_⟩
    intro child among path record at_path
    obtain ⟨step, at_step⟩ := List.mem_iff_getElem?.mp among
    exact all (step :: path) record (at_cons_eq_some_iff.mpr ⟨child, at_step, at_path⟩)
  · rintro ⟨own, below⟩ path record found
    cases path with
    | nil => exact own record (Option.some.inj found)
    | cons step path =>
        obtain ⟨child, at_step, at_path⟩ := at_cons_eq_some_iff.mp found
        exact below child (List.mem_of_getElem? at_step) path record at_path

end TracedGrammar.Value

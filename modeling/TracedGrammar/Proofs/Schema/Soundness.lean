import TracedGrammar.Proofs.Grammar.Adequacy
import TracedGrammar.Schema

/-!
# Schemas are sound

The schema of a grammar is a type system for the values that its rules yield. `Value.Inhabits` says
which values are of a type, for declarations that may refer to each other; a value of a union is one
of its cases in finitely many steps. Every value that a run yields is of the type that the schema
declares for its rule.

The types are read off the syntax tree, so the proof goes along the meaning of the grammar
(`Grammar.Means`) and not along the compiled expressions. The theorem to read first is
`inhabits_of_match`.
-/

namespace TracedGrammar

/-- The declaration of a rule. -/
def TypeDecl.find? (decls : List TypeDecl) (rule : String) : Option TypeDecl :=
  decls.find? (·.rule == rule)

/-- A value is of a type. -/
inductive Value.Inhabits (decls : List TypeDecl) : Value → FieldType → Prop where
  | text {content} : Inhabits decls (.text content) .text
  | list {items item} (typed : ∀ value ∈ items, Inhabits decls value item) :
      Inhabits decls (.list items) (.list item)
  | absent {inner} : Inhabits decls .absent (.optional inner)
  | present {value inner} (typed : Inhabits decls value inner) :
      Inhabits decls value (.optional inner)
  -- a record has the declared fields and no others, in the declared order
  | record {rule name fields record span}
      (declared : TypeDecl.find? decls rule = some (.record name fields))
      (tag_eq : record.tag = some rule) (span_eq : record.span = some span)
      (names_eq : record.names = fields.map (·.name))
      (typed : ∀ captured ∈ record.fields.zip fields,
        Inhabits decls captured.1.2 captured.2.type) :
      Inhabits decls (.record record) (.reference rule)
  | union {rule name cases case value}
      (declared : TypeDecl.find? decls rule = some (.union name cases)) (among : case ∈ cases)
      (typed : Inhabits decls value (.reference case)) :
      Inhabits decls value (.reference rule)

/-- Captured fields are the declared ones, in order. -/
def Record.Fits (decls : List TypeDecl) (captured : List (String × Value)) (fields : List Field) :
    Prop :=
  List.Forall₂ (fun captured field => captured.1 = field.name ∧
    captured.2.Inhabits decls field.type) captured fields

namespace Record.Fits

variable {decls : List TypeDecl} {captured : List (String × Value)} {fields : List Field}

/-- A captured field has the same place among the others as its declaration. -/
theorem insert (h : Fits decls captured fields) {name : String} {value : Value} {type : FieldType}
    (typed : value.Inhabits decls type) :
    Fits decls (insertField name value captured) (Field.insert ⟨name, type⟩ fields) := by
  induction h with
  | nil => exact .cons ⟨rfl, typed⟩ .nil
  | @cons first field captured fields both rest ih =>
      by_cases same : first.1 = name
      · rw [insertField, if_pos same, Field.insert, if_pos (both.1 ▸ same)]
        exact .cons ⟨both.1, typed⟩ rest
      · rw [insertField, if_neg same, Field.insert, if_neg (both.1 ▸ same)]
        exact .cons both ih

theorem names_eq (h : Fits decls captured fields) :
    captured.map (·.1) = fields.map (·.name) := by
  induction h with
  | nil => rfl
  | cons both _ ih => rw [List.map_cons, List.map_cons, both.1, ih]

theorem inhabits (h : Fits decls captured fields) {rule name : String} {span : Span}
    (declared : TypeDecl.find? decls rule = some (.record name fields)) :
    Value.Inhabits decls (.record ⟨some rule, some span, captured⟩) (.reference rule) :=
  .record declared rfl rfl h.names_eq fun _ among => (List.forall₂_zip h among).2

end Record.Fits

namespace Grammar

/-- What the schema says about the value of a goal. -/
def Goal.Types (decls : List TypeDecl) (value : Value) : Goal → Prop
  | .rule name => value.Inhabits decls (.reference name)
  | .atom core => value.Inhabits decls core.describe
  | .suffixed core suffix => value.Inhabits decls (Suffix.wrapType core.describe suffix)
  | .items core _ earlier => (∀ item ∈ earlier, item.Inhabits decls core.describe) →
      value.Inhabits decls (.list core.describe)
  | .part next => ∀ field, next.describe? = some field → value.Inhabits decls field.type
  | .parts left record => ∀ fields, Record.Fits decls record.fields fields →
      ∃ kept, value = .record kept ∧ Record.Fits decls kept.fields
        ((left.filterMap Part.describe?).foldl (fun fields added => added.insert fields) fields)
  | .cases targets _ => ∃ target ∈ targets, value.Inhabits decls (.reference target.name)

variable {grammar : Grammar} {limit : Nat}

/-- The schema declares a rule as the rule is described. -/
theorem find_describe (grammar : Grammar) (name : String) :
    TypeDecl.find? grammar.describe name = (grammar.rule? name).map Rule.describe := by
  rw [TypeDecl.find?, describe, List.find?_map, rule?]
  congr 2
  funext rule
  cases rule <;> rfl

/-- A value that an attempt means is of the type that the schema gives to its goal. -/
theorem Means.types {attempt : Attempt} {outcome : Outcome} {after : Cursor}
    (h : grammar.Means limit attempt outcome after) {value : Value}
    (matched : outcome = .matched value) : attempt.goal.Types grammar.describe value := by
  induction h generalizing value with
  | @sequence_match name ident parts span depth cursor record after found below _ ih =>
      cases matched
      have declared : TypeDecl.find? grammar.describe name =
          some (Rule.sequence ident parts span).describe := by rw [find_describe, found]; rfl
      obtain ⟨kept, same, fits⟩ := ih rfl [] .nil
      cases same
      exact fits.inhabits declared
  | @union name ident targets span depth cursor outcome after found below _ ih =>
      have declared : TypeDecl.find? grammar.describe name =
          some (Rule.union ident targets span).describe := by rw [find_describe, found]; rfl
      obtain ⟨target, among, typed⟩ := ih matched
      exact .union declared (List.mem_map_of_mem among) typed
  | reference _ ih => exact ih matched
  | literal_match | class_match =>
      cases matched
      exact .text
  | once _ ih => exact ih matched
  | optional_match _ ih => exact .present (ih matched)
  | optional_miss =>
      cases matched
      exact .absent
  | zero_or_more _ ih | one_or_more _ ih => exact ih matched (by simp)
  | items_end =>
      cases matched
      exact .list
  | items_next _ _ _ item rest =>
      intro earlier_typed
      refine rest matched fun other among => ?_
      rcases List.mem_append.mp among with among | among
      · exact earlier_typed other among
      · cases List.mem_singleton.mp among
        exact item rfl
  | @part_value part depth cursor outcome after unmarked _ ih =>
      intro field described
      obtain ⟨ident, -, rfl⟩ := Option.map_eq_some_iff.mp described
      simp only [unmarked, Bool.false_eq_true, if_false]
      exact ih matched
  | part_text marked =>
      cases matched
      intro field described
      obtain ⟨ident, -, rfl⟩ := Option.map_eq_some_iff.mp described
      simp only [marked, if_true]
      exact .text
  | @parts_end record =>
      cases matched
      exact fun fields fits => ⟨record, rfl, fits⟩
  | @parts_next part parts record depth cursor item middle outcome after _ _ first rest =>
      intro fields fits
      have described := first rfl
      simp only [Goal.Types] at described
      -- a part without a name leaves both the record and the declared fields as they are
      cases named : part.field with
      | none =>
          obtain ⟨kept, same, fits⟩ := rest matched fields (by rw [Part.keep, named]; exact fits)
          refine ⟨kept, same, ?_⟩
          rwa [List.filterMap_cons_none (by rw [Part.describe?, named]; rfl)]
      | some ident =>
          obtain ⟨type, typed⟩ : ∃ type, part.describe? = some ⟨ident.name, type⟩ :=
            ⟨_, by rw [Part.describe?, named]; rfl⟩
          obtain ⟨kept, same, fits⟩ := rest matched _
            (by rw [Part.keep, named]; exact fits.insert (described _ typed))
          refine ⟨kept, same, ?_⟩
          rwa [List.filterMap_cons_some typed]
  | cases_match _ ih =>
      cases matched
      exact ⟨_, List.mem_cons_self, ih rfl⟩
  | cases_next _ _ _ rest =>
      obtain ⟨target, among, typed⟩ := rest matched
      exact ⟨target, .tail _ among, typed⟩
  | sequence_miss | literal_miss | class_miss | items_none | part_miss | parts_stop | cases_end =>
      cases matched

end Grammar

/-- Schemas are sound: the value that a run of a compiled grammar yields is of the type that the
schema of the grammar declares for the rule that was run. -/
theorem inhabits_of_match {grammar : Grammar} {maxDepth : Nat} {program : Program}
    {start text : String} {value : Value} {offset : Nat}
    (compiled : grammar.compile maxDepth = .ok program)
    (ran : program.run start text = .ok (.matched value, offset)) :
    value.Inhabits grammar.describe (.reference start) := by
  obtain ⟨after, means, -⟩ := means_of_run compiled ran
  exact means.types rfl

/-- The item that the example reads is of the type of its rule, through both cases of the union. -/
theorem inhabits_of_item : ∃ program, itemGrammar.compile 9 = .ok program ∧
    program.run "item" "ab?c!" = .ok (.matched itemValue, 5) ∧
    itemValue.Inhabits itemGrammar.describe (.reference "item") := by
  obtain ⟨program, compiled⟩ : ∃ program, itemGrammar.compile 9 = .ok program := ⟨_, rfl⟩
  have ran := run_item compiled
  exact ⟨program, compiled, ran, inhabits_of_match compiled ran⟩

end TracedGrammar

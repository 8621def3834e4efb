import TracedGrammar.Proofs.Document.Spans
import TracedGrammar.Proofs.Grammar.Adequacy
import TracedGrammar.Proofs.Grammar.Assembly
import TracedGrammar.Proofs.Value.Positions

/-!
# Values that keep the whole text

A grammar captures all that it reads if every part of its sequences has a field of its own. The
texts in a value of such a grammar make up the text that was matched, and those in each of its
records make up the text of the record's span: nothing is kept twice and nothing is lost, whatever
was tried and given up on the way.

The theorem to read first is `leaves_of_match`.
-/

namespace TracedGrammar

/-- A field of a new name goes to the end. -/
theorem Record.insert_field_of_unused {name : String} {fields : List (String × Value)}
    (unused : name ∉ fields.map (·.1)) (value : Value) :
    insertField name value fields = fields ++ [(name, value)] := by
  induction fields with
  | nil => rfl
  | cons field fields ih =>
      rw [List.map_cons, List.mem_cons, not_or] at unused
      rw [insertField, if_neg fun same => unused.1 same.symm, ih unused.2, List.cons_append]

/-- The names of the fields that parts have. -/
def Part.fieldNames (parts : List Part) : List String :=
  (parts.filterMap (·.field)).map (·.name)

/-- Every part of a sequence has a field of its own. -/
def Rule.CapturesAll : Rule → Prop
  | .sequence _ parts _ => (∀ part ∈ parts, part.field.isSome) ∧ (Part.fieldNames parts).Nodup
  | .union .. => True

instance : (rule : Rule) → Decidable rule.CapturesAll
  | .sequence _ parts _ =>
      inferInstanceAs (Decidable ((∀ part ∈ parts, part.field.isSome) ∧ _))
  | .union .. => inferInstanceAs (Decidable True)

namespace Value

mutual

/-- The texts in a value, in order. -/
def leaves : Value → List String
  | .absent => []
  | .text content => [content]
  | .list items => itemLeaves items
  | .record ⟨_, _, fields⟩ => fieldLeaves fields

/-- The texts in the items of a list. -/
def itemLeaves : List Value → List String
  | [] => []
  | item :: items => item.leaves ++ itemLeaves items

/-- The texts in the fields of a record. -/
def fieldLeaves : List (String × Value) → List String
  | [] => []
  | (_, value) :: fields => value.leaves ++ fieldLeaves fields

end

/-- The texts in a value, one behind the other. -/
def spelling (value : Value) : String :=
  .join value.leaves

theorem item_leaves_append (items more : List Value) :
    itemLeaves (items ++ more) = itemLeaves items ++ itemLeaves more := by
  induction items with
  | nil => rfl
  | cons item items ih => rw [List.cons_append, itemLeaves, itemLeaves, ih, List.append_assoc]

theorem field_leaves_append (fields more : List (String × Value)) :
    fieldLeaves (fields ++ more) = fieldLeaves fields ++ fieldLeaves more := by
  induction fields with
  | nil => rfl
  | cons field fields ih =>
      rw [List.cons_append, fieldLeaves, fieldLeaves, ih, List.append_assoc]

@[simp] theorem spelling_absent : spelling .absent = "" := by
  rw [spelling, leaves, String.join_nil]

@[simp] theorem spelling_text (content : String) : spelling (.text content) = content := by
  rw [spelling, leaves, String.join_cons, String.join_nil, String.append_empty]

@[simp] theorem spelling_no_items : spelling (.list []) = "" := by
  rw [spelling, leaves, itemLeaves, String.join_nil]

theorem spelling_next_item (items : List Value) (value : Value) :
    spelling (.list (items ++ [value])) = spelling (.list items) ++ value.spelling := by
  rw [spelling, leaves, item_leaves_append, String.join_append, itemLeaves, itemLeaves,
    List.append_nil, spelling, spelling, leaves]

@[simp] theorem spelling_no_fields : spelling (.record .empty) = "" := by
  rw [spelling, Record.empty, leaves, fieldLeaves, String.join_nil]

/-- Tags and spans spell nothing. -/
theorem spelling_record (record : Record Value) (tag : Option String) (span : Option Span) :
    spelling (.record { record with tag, span }) = spelling (.record record) := by
  rw [spelling, leaves, spelling, leaves]

/-- A field of a new name adds its value at the end. -/
theorem spelling_insert {record : Record Value} {name : String} (unused : name ∉ record.names)
    (value : Value) :
    spelling (.record (record.insert name value)) = spelling (.record record) ++ value.spelling := by
  rw [Record.insert, Record.insert_field_of_unused unused, spelling, leaves, field_leaves_append,
    String.join_append, fieldLeaves, fieldLeaves, List.append_nil, spelling, spelling, leaves]

end Value

/-- A record spells the text of its span, which is somewhere behind a cursor. -/
def Record.SpellsSpan (begun : Cursor) (record : Record Value) : Prop :=
  ∃ first last, begun.Before first ∧ first.Reads (Value.record record).spelling.toList last ∧
    record.span = some ⟨first.offset, last.offset⟩

/-- A value spells the text between two cursors, and each record in it the text of its span. -/
structure Value.Spells (begun : Cursor) (value : Value) (after : Cursor) : Prop where
  reads : begun.Reads value.spelling.toList after
  records : value.AllRecords (·.SpellsSpan begun)

/-- The fields of a record spell the text between two cursors, and the parts that it waits for have
fields of other names, each its own. -/
structure Record.SpellsSoFar (left : List Part) (begun : Cursor) (record : Record Value)
    (after : Cursor) : Prop where
  named : ∀ part ∈ left, part.field.isSome
  distinct : (record.names ++ Part.fieldNames left).Nodup
  reads : begun.Reads (Value.record record).spelling.toList after
  records : ∀ value ∈ (Value.record record).children, value.AllRecords (·.SpellsSpan begun)

section

variable {begun cursor after : Cursor} {value : Value} {items : List Value} {chars : List Char}
  {record : Record Value} {part : Part} {left : List Part}

theorem Record.SpellsSpan.from_earlier (h : record.SpellsSpan cursor)
    (before : begun.Before cursor) : record.SpellsSpan begun := by
  obtain ⟨first, last, further, rest⟩ := h
  exact ⟨first, last, before.trans further, rest⟩

namespace Value.Spells

theorem records_from_earlier (h : Spells cursor value after) (before : begun.Before cursor) :
    value.AllRecords (·.SpellsSpan begun) :=
  fun path record found => (h.records path record found).from_earlier before

theorem text (read : cursor.Reads chars after) :
    Spells cursor (.text (String.ofList chars)) after := by
  refine ⟨by rwa [spelling_text, String.toList_ofList], all_records_iff.mpr ⟨nofun, ?_⟩⟩
  exact fun child among => by cases among

theorem absent : Spells cursor .absent cursor := by
  refine ⟨by rw [spelling_absent]; exact .refl cursor, all_records_iff.mpr ⟨nofun, ?_⟩⟩
  exact fun child among => by cases among

theorem no_items : Spells cursor (.list []) cursor := by
  refine ⟨by rw [spelling_no_items]; exact .refl cursor, all_records_iff.mpr ⟨nofun, ?_⟩⟩
  exact fun child among => by cases among

theorem next_item (h : Spells begun (.list items) cursor) (next : Spells cursor value after) :
    Spells begun (.list (items ++ [value])) after := by
  constructor
  · rw [spelling_next_item, String.toList_append]
    exact h.reads.trans next.reads
  · refine all_records_iff.mpr ⟨nofun, fun child among => ?_⟩
    rcases List.mem_append.mp among with among | among
    · exact (all_records_iff.mp h.records).2 child among
    · cases List.mem_singleton.mp among
      exact next.records_from_earlier ⟨_, h.reads⟩

end Value.Spells

namespace Record.SpellsSoFar

theorem no_fields (named : ∀ part ∈ left, part.field.isSome)
    (distinct : (Part.fieldNames left).Nodup) :
    SpellsSoFar left cursor .empty cursor where
  named := named
  distinct := distinct
  reads := by rw [Value.spelling_no_fields]; exact .refl cursor
  records value among := by cases among

/-- The value of the next part is kept behind the others, as its field has a new name. -/
theorem next_part (h : SpellsSoFar (part :: left) begun record cursor)
    (next : Value.Spells cursor value after) :
    SpellsSoFar left begun (part.keep value record) after := by
  obtain ⟨ident, named⟩ := Option.isSome_iff_exists.mp (h.named part List.mem_cons_self)
  have names_eq : Part.fieldNames (part :: left) = ident.name :: Part.fieldNames left := by
    rw [Part.fieldNames, List.filterMap_cons_some named, List.map_cons, Part.fieldNames]
  have distinct := h.distinct
  rw [names_eq] at distinct
  have unused : ident.name ∉ record.names := fun among =>
    (List.nodup_append.mp distinct).2.2 _ among _ List.mem_cons_self rfl
  have inserted : part.keep value record = record.insert ident.name value := by
    rw [Part.keep, named]
  rw [inserted]
  constructor
  · exact fun other among => h.named other (.tail _ among)
  · rw [names_insert, if_neg unused, List.append_assoc]
    exact distinct
  · rw [Value.spelling_insert unused, String.toList_append]
    exact h.reads.trans next.reads
  · intro child among
    rw [Record.insert, Value.children, insert_field_of_unused unused, List.map_append] at among
    rcases List.mem_append.mp among with among | among
    · exact h.records child among
    · cases List.mem_singleton.mp among
      exact next.records_from_earlier ⟨_, h.reads⟩

/-- A rule closes its record once all parts are kept. -/
theorem closed (h : SpellsSoFar [] begun record after) (name : String) :
    Value.Spells begun (.record
      { record with tag := some name, span := some ⟨begun.offset, after.offset⟩ }) after := by
  have reads := h.reads
  rw [← Value.spelling_record record (some name) (some ⟨begun.offset, after.offset⟩)] at reads
  refine ⟨reads, Value.all_records_iff.mpr ⟨?_, h.records⟩⟩
  intro same is_same
  cases is_same
  exact ⟨begun, after, .refl begun, reads, rfl⟩

end Record.SpellsSoFar

end

/-- Values of a grammar that captures all it reads spell the text that was read. -/
theorem Grammar.assembles_spelling {grammar : Grammar}
    (captures : ∀ rule ∈ grammar.rules, rule.CapturesAll) :
    grammar.Assembles Value.Spells Record.SpellsSoFar where
  text := .text
  absent := .absent
  no_items := .no_items
  next_item := .next_item
  no_fields found := by
    have captured := captures _ (List.mem_of_find?_eq_some found)
    exact .no_fields captured.1 captured.2
  next_part := .next_part
  record h := h.closed _

/-- The value of a match keeps the whole text if every part of every sequence has a field of its
own: the texts in it make up the text that was consumed, and those in each of its records the text
of the record's span. -/
theorem leaves_of_match {grammar : Grammar} {maxDepth : Nat} {program : Program}
    {start text : String} {value : Value} {offset : Nat}
    (compiled : grammar.compile maxDepth = .ok program)
    (captures : ∀ rule ∈ grammar.rules, rule.CapturesAll)
    (ran : program.run start text = .ok (.matched value, offset)) :
    IsPiece text 0 offset (.join value.leaves) ∧
      ∀ path record, value.at? path = some (.record record) → ∃ span, record.span = some span ∧
        IsPiece text span.start span.stop (.join (Value.record record).leaves) := by
  obtain ⟨after, means, rfl⟩ := means_of_run compiled ran
  have spelled : value.Spells (.start text) after :=
    means.assembled (Grammar.assembles_spelling captures) rfl
  have piece {earlier later : Cursor} {content : String}
      (reads : earlier.Reads content.toList later) (begun : (Cursor.start text).Before earlier) :
      IsPiece text earlier.offset later.offset content := by
    rw [← String.ofList_toList (s := content)]
    exact reads.is_piece begun
  refine ⟨piece spelled.reads (.refl _), fun path record found => ?_⟩
  obtain ⟨first, last, begun, reads, span_eq⟩ := spelled.records path record found
  exact ⟨_, span_eq, piece reads begun⟩

/-- The marks, the rest and the missing last mark of the example make up the line. -/
theorem leaves_of_line : ∃ program, lineGrammar.compile 9 = .ok program ∧
    (∀ rule ∈ lineGrammar.rules, rule.CapturesAll) ∧
    program.run "line" "a.b.cc?" = .ok (.matched lineValue, 6) ∧
    lineValue.leaves = ["a", ".", "b", ".", "cc"] ∧
    IsPiece "a.b.cc?" 0 6 (.join lineValue.leaves) ∧
    IsPiece "a.b.cc?" 2 4 (.join (markValue "b" 2).leaves) := by
  obtain ⟨program, compiled⟩ : ∃ program, lineGrammar.compile 9 = .ok program := ⟨_, rfl⟩
  have captures : ∀ rule ∈ lineGrammar.rules, rule.CapturesAll := by decide
  have ran := run_line compiled
  obtain ⟨whole, within⟩ := leaves_of_match compiled captures ran
  obtain ⟨span, span_eq, piece⟩ := within [0, 1] _ rfl
  cases span_eq
  exact ⟨program, compiled, captures, ran, rfl, whole, piece⟩

end TracedGrammar

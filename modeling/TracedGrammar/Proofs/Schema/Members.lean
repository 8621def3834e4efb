import TracedGrammar.Proofs.Schema.Soundness
import TracedGrammar.Proofs.Value.Keys
import TracedGrammar.Proofs.Value.Positions
import TracedGrammar.Schema.Report

/-!
# Schema reports list the keys of the output

A record as JSON and the interface that a schema report shows for its rule both leave out what is
shadowed: a field named like the tag key takes the place of the tag, and the offsets take the place
of fields named like theirs. The names that the record has captured come from a run, those of the
interface from the syntax tree. They are the same names, and what is shown of names is the same on
both sides (`Record.shownKeys`).

The theorem to read first is `report_lists_keys`.
-/

namespace TracedGrammar

namespace Record

/-- The keys that are shown for a record with fields of some names. -/
def shownKeys (names : List String) : List String :=
  (if tagKey ∈ names then [] else [tagKey]) ++ names.filter (!isSpanKey ·) ++ [startKey, stopKey]

/-- The object of a record with a tag and a span has the keys that are shown for its fields. -/
theorem keys_of_members {record : Record Json} {tag : String} {span : Span}
    (tag_eq : record.tag = some tag) (span_eq : record.span = some span) :
    record.members.map (·.1) = shownKeys record.names := by
  simp only [members, tag_eq, span_eq, List.map_append, shownKeys]
  congr 2
  · by_cases among : tagKey ∈ record.names
    · rw [if_pos (has_iff.mpr among), if_pos among, List.map_nil]
    · rw [if_neg fun has => among (has_iff.mp has), if_neg among, List.map_singleton]
  · rw [names, List.filter_map]
    rfl

end Record

/-- The JSON of a record that a rule has closed is an object with the keys that are shown for the
fields. -/
theorem Value.exists_members {record : Record Value} {tag : String} {span : Span}
    (tag_eq : record.tag = some tag) (span_eq : record.span = some span) :
    ∃ members, (Value.record record).toJson = .obj members ∧
      members.map (·.1) = Record.shownKeys record.names := by
  obtain ⟨_, _, fields⟩ := record
  refine ⟨_, by rw [toJson], ?_⟩
  rw [Record.keys_of_members tag_eq span_eq, Record.names, fields_to_json_eq, List.map_map]
  rfl

namespace SchemaReport

/-- A line of an interface says of a key of which type it is: the tag is of the one text that it can
be, all else of the type of a field. -/
def Declares (rule line key : String) : Prop :=
  ∃ type, line = "    " ++ key ++ ": " ++ type ++ ";" ∧
    (type = Text.quote rule ∨ ∃ fieldType : FieldType, type = fieldType.display)

/-- The text of an interface with such lines for its members. -/
def interfaceText (rule : String) (lines : List String) : String :=
  .join ((["export interface " ++ Text.capitalize rule ++ " \x7b"] ++ lines ++ ["\x7d"]).map
    (· ++ "\n"))

/-- The report on declarations lists keys for a rule: at the place of the rule among them the report
has an interface with a line for every key, in order. -/
def Lists (decls : List TypeDecl) (rule : String) (keys : List String) : Prop :=
  ∃ earlier fields later lines, decls = earlier ++ .record rule fields :: later ∧
    render {} decls = "\n".intercalate (earlier.map (render {} [·]) ++
      interfaceText rule lines :: later.map (render {} [·])) ∧
    List.Forall₂ (Declares rule) lines keys

theorem render_cons_cons (style : SchemaStyle) (first second : TypeDecl) (rest : List TypeDecl) :
    render style (first :: second :: rest) =
      render style [first] ++ "\n" ++ render style (second :: rest) := by
  have blank : cut style.maxWidth "" = "" := by
    cases style.maxWidth <;> rfl
  simp only [render, lines, List.flatMap_cons, List.flatMap_nil, List.append_nil, List.map_append,
    List.map_cons, List.cons_append, String.join_append, String.join_cons, blank,
    String.append_assoc, String.empty_append]

/-- A report shows its declarations one by one, with a blank line between them. -/
theorem render_eq_intercalate (style : SchemaStyle) (decls : List TypeDecl) :
    render style decls = "\n".intercalate (decls.map (render style [·])) := by
  induction decls with
  | nil => rfl
  | cons first rest ih =>
      cases rest with
      | nil => rw [List.map_singleton, String.intercalate_singleton]
      | cons second rest =>
          rw [render_cons_cons, ih]
          simp only [List.map_cons, String.intercalate_cons_cons]

/-- Without a width limit the interface of a record stands in the report as it is. -/
theorem render_record (rule : String) (fields : List Field) :
    render {} [.record rule fields] = interfaceText rule (memberLines {} rule fields) := by
  rw [render, lines, List.flatMap_nil, List.append_nil]
  rfl

/-- The lines of an interface declare the keys that are shown for the names of its fields. -/
theorem lines_declare (rule : String) (fields : List Field) :
    List.Forall₂ (Declares rule) (memberLines {} rule fields)
      (Record.shownKeys (fields.map (·.name))) := by
  have declares (key : String) (type : FieldType) :
      Declares rule (memberLine key type.display) key := ⟨_, rfl, .inr ⟨type, rfl⟩⟩
  refine List.rel_append (List.rel_append ?_ ?_) ?_
  · change List.Forall₂ _ (if fields.any (·.name == Record.tagKey) then [] else _) _
    by_cases among : Record.tagKey ∈ fields.map (·.name)
    · have shadowed : fields.any (·.name == Record.tagKey) := by simpa using among
      rw [if_pos shadowed, if_pos among]
      exact .nil
    · have free : ¬fields.any (·.name == Record.tagKey) := by simpa using among
      rw [if_neg free, if_neg among]
      exact .cons ⟨_, rfl, .inl rfl⟩ .nil
  · rw [List.filter_map]
    exact List.forall₂_map_left_iff.mpr (List.forall₂_map_right_iff.mpr
      (List.forall₂_same.mpr fun field _ => declares field.name field.type))
  · exact .cons (declares _ .offset) (.cons (declares _ .offset) .nil)

example : memberLines {} "entry" [⟨"kind", .optional .text⟩, ⟨"type", .text⟩, ⟨"$to", .text⟩] =
    ["    kind: string | null;", "    type: string;", "    $from: number;", "    $to: number;"] := by
  decide

/-- The report lists the shown keys of each record type. -/
theorem lists_of_mem {decls : List TypeDecl} {rule : String} {fields : List Field}
    (declared : .record rule fields ∈ decls) :
    Lists decls rule (Record.shownKeys (fields.map (·.name))) := by
  obtain ⟨earlier, later, rfl⟩ := List.append_of_mem declared
  refine ⟨earlier, fields, later, memberLines {} rule fields, rfl, ?_, lines_declare rule fields⟩
  rw [render_eq_intercalate, List.map_append, List.map_cons, render_record]

end SchemaReport

/-- A record is as the declaration of its rule says, as far as the names of its fields go. -/
def Record.Declared (decls : List TypeDecl) (record : Record Value) : Prop :=
  ∃ rule span fields, record.tag = some rule ∧ record.span = some span ∧
    .record rule fields ∈ decls ∧ record.names = fields.map (·.name)

/-- All records in a value that is of a type are declared. -/
theorem Value.Inhabits.all_declared {decls : List TypeDecl} {value : Value} {type : FieldType}
    (h : value.Inhabits decls type) : value.AllRecords (·.Declared decls) := by
  induction h with
  | text | absent => exact all_records_iff.mpr ⟨nofun, nofun⟩
  | list _ ih => exact all_records_iff.mpr ⟨nofun, ih⟩
  | present _ ih | union _ _ _ ih => exact ih
  | @record rule name fields record span declared tag_eq span_eq names_eq _ ih =>
      refine all_records_iff.mpr ⟨?_, fun child among => ?_⟩
      · rintro _ ⟨⟩
        have is_own := List.find?_some declared
        have name_eq : name = rule := eq_of_beq is_own
        exact ⟨rule, span, fields, tag_eq, span_eq, name_eq ▸ List.mem_of_find?_eq_some declared,
          names_eq⟩
      · -- each captured field has its declaration at the same place
        obtain ⟨field, captured, rfl⟩ := List.mem_map.mp among
        have length_eq : record.fields.length = fields.length := by
          simpa [Record.names] using congrArg List.length names_eq
        have paired : field ∈ (record.fields.zip fields).map (·.1) := by
          rwa [List.map_fst_zip length_eq.le]
        obtain ⟨pair, both, rfl⟩ := List.mem_map.mp paired
        exact ih pair both

/-- Schema reports list the keys of the output: for a record in the value of a match, the report
on the grammar has an interface of the record's rule with one line for every key of the record's
JSON, in the order in which the keys are written. -/
theorem report_lists_keys {grammar : Grammar} {maxDepth : Nat} {program : Program}
    {start text rule : String} {value : Value} {offset : Nat} {path : List Nat}
    {record : Record Value} (compiled : grammar.compile maxDepth = .ok program)
    (ran : program.run start text = .ok (.matched value, offset))
    (found : value.at? path = some (.record record)) (tagged : record.tag = some rule) :
    ∃ members, (Value.record record).toJson = .obj members ∧
      SchemaReport.Lists grammar.describe rule (members.map (·.1)) := by
  obtain ⟨after, means, -⟩ := means_of_run compiled ran
  have typed : value.Inhabits grammar.describe (.reference start) := means.types rfl
  obtain ⟨own, span, fields, own_eq, span_eq, declared, names_eq⟩ :=
    typed.all_declared path record found
  cases own_eq.symm.trans tagged
  obtain ⟨members, json_eq, keys_eq⟩ := Value.exists_members own_eq span_eq
  refine ⟨members, json_eq, ?_⟩
  rw [keys_eq, names_eq]
  exact SchemaReport.lists_of_mem declared

/-- A book is entries whose fields have reserved names, and one of them a name that is used once
more. -/
def bookGrammar : Grammar where
  rules :=
    [.sequence ⟨"book", ⟨0, 4⟩⟩
        [⟨some ⟨"entries", ⟨7, 14⟩⟩, false, .reference ⟨"entry", ⟨15, 20⟩⟩, some .oneOrMore,
          ⟨7, 21⟩⟩] ⟨0, 22⟩,
      .sequence ⟨"entry", ⟨23, 28⟩⟩
        [⟨some ⟨"kind", ⟨30, 34⟩⟩, false, letterClass, none, ⟨30, 40⟩⟩,
          ⟨some ⟨"type", ⟨41, 45⟩⟩, false, letterClass, none, ⟨41, 50⟩⟩,
          ⟨some ⟨"kind", ⟨51, 55⟩⟩, false, letterClass, some .optional, ⟨51, 60⟩⟩,
          ⟨some ⟨"$to", ⟨61, 64⟩⟩, false, markLiteral '.', none, ⟨61, 70⟩⟩] ⟨23, 71⟩]
  span := ⟨0, 72⟩

/-- The fields of an entry, of which the first one was captured twice. -/
def entryRecord : Record Value where
  tag := some "entry"
  span := some ⟨0, 4⟩
  fields := [("kind", .text "c"), ("type", .text "b"), ("$to", .text ".")]

/-- A book of one entry. -/
def bookValue : Value :=
  .record { tag := some "book", span := some ⟨0, 4⟩, fields :=
    [("entries", .list [.record entryRecord])] }

/-- The report lists the keys of the entry in the example: the tag and the captured offset are
shadowed. -/
theorem report_lists_entry_keys : ∃ program members, bookGrammar.compile 9 = .ok program ∧
    program.run "book" "abc." = .ok (.matched bookValue, 4) ∧
    bookValue.at? [0, 0] = some (.record entryRecord) ∧ entryRecord.tag = some "entry" ∧
    (Value.record entryRecord).toJson = .obj members ∧
    members.map (·.1) = ["kind", "type", "$from", "$to"] ∧
    SchemaReport.Lists bookGrammar.describe "entry" (members.map (·.1)) := by
  obtain ⟨program, compiled, ran⟩ : ∃ program, bookGrammar.compile 9 = .ok program ∧
      program.run "book" "abc." = .ok (.matched bookValue, 4) := by
    refine ⟨_, rfl, ?_⟩
    cbv
  obtain ⟨members, json_eq, lists⟩ :=
    @report_lists_keys _ _ _ _ _ "entry" _ _ [0, 0] entryRecord compiled ran rfl rfl
  have keys_eq : members.map (·.1) = ["kind", "type", "$from", "$to"] := by
    cases json_eq
    decide
  exact ⟨program, members, compiled, ran, rfl, rfl, json_eq, keys_eq, lists⟩

end TracedGrammar

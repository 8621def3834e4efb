import Mathlib.Data.List.Induction
import Mathlib.Data.List.Nodup
import TracedGrammar.Value.Text

/-!
# Written records have no key twice

A record takes its keys from three places: its tag, its fields and the bounds of its span. Here a
value is given by how it is built (`Value.Recipe`), its records by insertions one after the other,
and `Recipe.Written` says how such a value is written: a field stands where its name was inserted
first and has the value that was inserted last, the tag comes before the fields unless one of them
has its key, and the bounds come behind them and take the place of fields of their keys. What is
written so has no key twice (`Recipe.Written.distinctKeys`).

The theorem to read first is `distinct_keys_of_recipe`.
-/

namespace TracedGrammar

/-- No object in a JSON value has a key twice. -/
inductive Json.DistinctKeys : Json → Prop where
  | null : DistinctKeys .null
  | bool {value} : DistinctKeys (.bool value)
  | int {value} : DistinctKeys (.int value)
  | fraction {mantissa places} : DistinctKeys (.fraction mantissa places)
  | str {value} : DistinctKeys (.str value)
  | arr {items} (each : ∀ item ∈ items, DistinctKeys item) : DistinctKeys (.arr items)
  | obj {members} (distinct : (members.map (·.1)).Nodup)
      (each : ∀ member ∈ members, DistinctKeys member.2) : DistinctKeys (.obj members)

namespace Record

variable {α : Type} {fields insertions : List (String × α)} {name key : String} {value other : α}

/-- The record that insertions one after the other make. -/
def ofInsertions (insertions : List (String × α)) : Record α :=
  insertions.foldl (fun record added => record.insert added.1 added.2) empty

/-- The names of insertions, in the order of the first insertion of each. -/
def firstInserted (insertions : List (String × α)) : List String :=
  (insertions.map (·.1)).eraseDups

/-- What was inserted last under a name. -/
def lastInserted? (insertions : List (String × α)) (name : String) : Option α :=
  insertions.reverse.lookup name

theorem ofInsertions_concat (insertions : List (String × α)) (added : String × α) :
    ofInsertions (insertions ++ [added]) = (ofInsertions insertions).insert added.1 added.2 := by
  rw [ofInsertions, List.foldl_append]
  rfl

theorem firstInserted_map {β : Type} (f : α → β) (insertions : List (String × α)) :
    firstInserted (insertions.map fun added => (added.1, f added.2)) =
      firstInserted insertions := by
  rw [firstInserted, List.map_map]
  rfl

theorem firstInserted_concat (insertions : List (String × α)) (added : String × α) :
    firstInserted (insertions ++ [added]) =
      if added.1 ∈ firstInserted insertions then firstInserted insertions
      else firstInserted insertions ++ [added.1] := by
  simp only [firstInserted, List.map_append, List.map_singleton, List.eraseDups_append,
    List.mem_eraseDups]
  by_cases among : added.1 ∈ insertions.map (·.1) <;>
    simp [List.removeAll, among, List.eraseDups_cons]

theorem lastInserted_concat (insertions : List (String × α)) (name key : String) (value : α) :
    lastInserted? (insertions ++ [(name, value)]) key =
      if key = name then some value else lastInserted? insertions key := by
  rw [lastInserted?, List.reverse_concat, lookup_field]
  rfl

theorem lastInserted_map {β : Type} (f : α → β) (insertions : List (String × α)) (name : String) :
    lastInserted? (insertions.map fun added => (added.1, f added.2)) name =
      (lastInserted? insertions name).map f := by
  induction insertions using List.reverseRecOn with
  | nil => rfl
  | append_singleton insertions added ih =>
      rw [List.map_append, List.map_singleton, lastInserted_concat, lastInserted_concat, ih]
      split <;> rfl

theorem nodup_firstInserted (insertions : List (String × α)) :
    (firstInserted insertions).Nodup := by
  induction insertions using List.reverseRecOn with
  | nil => exact List.nodup_nil
  | append_singleton insertions added ih =>
      rw [firstInserted_concat]
      split
      · exact ih
      · next new =>
          rw [← List.concat_eq_append]
          exact ih.concat new

/-- What was inserted last was inserted. -/
theorem mem_of_lastInserted (last : lastInserted? insertions name = some value) :
    (name, value) ∈ insertions := by
  obtain ⟨later, earlier, reversed, -⟩ := List.lookup_eq_some_iff.mp last
  exact List.mem_reverse.mp (reversed ▸ List.mem_append_right _ List.mem_cons_self)

/-- A name that was inserted at all was inserted last. -/
theorem exists_lastInserted (inserted : name ∈ firstInserted insertions) :
    ∃ value, lastInserted? insertions name = some value := by
  rw [firstInserted, List.mem_eraseDups] at inserted
  obtain ⟨added, among, rfl⟩ := List.mem_map.mp inserted
  exact Option.isSome_iff_exists.mp (List.lookup_isSome_iff.mpr
    ⟨added, List.mem_reverse.mpr among, beq_self_eq_true _⟩)

/-- Insertions leave the names in the order of their first insertions. -/
theorem names_ofInsertions (insertions : List (String × α)) :
    (ofInsertions insertions).names = firstInserted insertions := by
  induction insertions using List.reverseRecOn with
  | nil => rfl
  | append_singleton insertions added ih =>
      rw [ofInsertions_concat, names_insert, ih, firstInserted_concat]

/-- A field after an insertion is the new one, or an old one of another name. -/
theorem of_mem_insertField (distinct : (fields.map (·.1)).Nodup)
    (among : (key, other) ∈ insertField name value fields) :
    key = name ∧ other = value ∨ key ≠ name ∧ (key, other) ∈ fields := by
  induction fields with
  | nil =>
      cases List.mem_singleton.mp among
      exact .inl ⟨rfl, rfl⟩
  | cons field fields ih =>
      obtain ⟨new, distinct⟩ := List.nodup_cons.mp distinct
      by_cases same : field.1 = name
      · rw [insertField, if_pos same] at among
        rcases List.mem_cons.mp among with own | later
        · cases own
          exact .inl ⟨same, rfl⟩
        · refine .inr ⟨fun again => new (List.mem_map.mpr ⟨_, later, ?_⟩), .tail _ later⟩
          exact again.trans same.symm
      · rw [insertField, if_neg same] at among
        rcases List.mem_cons.mp among with own | later
        · cases own
          exact .inr ⟨same, List.mem_cons_self⟩
        · exact (ih distinct later).imp_right fun ⟨apart, among⟩ => ⟨apart, .tail _ among⟩

/-- A field has the value that was inserted last under its name. -/
theorem lastInserted_of_mem (among : (key, value) ∈ (ofInsertions insertions).fields) :
    lastInserted? insertions key = some value := by
  induction insertions using List.reverseRecOn with
  | nil => cases among
  | append_singleton insertions added ih =>
      rw [ofInsertions_concat] at among
      have distinct := nodup_firstInserted insertions
      rw [← names_ofInsertions] at distinct
      rw [lastInserted_concat]
      obtain ⟨rfl, rfl⟩ | ⟨apart, among⟩ := of_mem_insertField distinct among
      · rw [if_pos rfl]
      · rw [if_neg apart, ih among]

end Record

theorem Record.has_iff {α : Type} {record : Record α} {name : String} :
    record.has name ↔ name ∈ record.names := by
  rw [has, get?, List.lookup_isSome_iff, names, List.mem_map]
  exact exists_congr fun field => and_congr_right fun _ => beq_iff_eq.trans eq_comm

namespace Value

theorem fields_to_json_eq (fields : List (String × Value)) :
    fieldsToJson fields = fields.map fun field => (field.1, field.2.toJson) := by
  induction fields with
  | nil => rfl
  | cons field fields ih => rw [fieldsToJson, ih, List.map_cons]

/-- How a value is built: lists from their items, and records by insertions one after the other,
with a tag and a span that are set. -/
inductive Recipe where
  | absent
  | text (content : String)
  | list (items : List Recipe)
  | record (tag : Option String) (span : Option Span) (insertions : List (String × Recipe))

namespace Recipe

mutual

/-- The value that is built. -/
def value : Recipe → Value
  | .absent => .absent
  | .text content => .text content
  | .list items => .list (itemValues items)
  | .record tag span insertions =>
      .record { Record.ofInsertions (insertedValues insertions) with tag, span }

/-- The items that a list is built from. -/
def itemValues : List Recipe → List Value
  | [] => []
  | item :: items => item.value :: itemValues items

/-- The insertions that a record is built by. -/
def insertedValues : List (String × Recipe) → List (String × Value)
  | [] => []
  | (name, item) :: insertions => (name, item.value) :: insertedValues insertions

end

/-- The member of a tag, which a field of its key replaces. -/
def tagMember (tag : Option String) (insertions : List (String × Recipe)) :
    List (String × Json) :=
  match tag with
  | none => []
  | some tag =>
      if Record.tagKey ∈ insertions.map (·.1) then [] else [(Record.tagKey, .str tag)]

/-- The members of the bounds of a span. -/
def boundMembers : Option Span → List (String × Json)
  | none => []
  | some span => [(Record.startKey, .nat span.start), (Record.stopKey, .nat span.stop)]

/-- Whether a field is written: the bounds of a span replace fields of their keys. -/
def isShown (span : Option Span) (name : String) : Bool :=
  span.isNone || !Record.isSpanKey name

/-- How a value is written that is built by a recipe. -/
inductive Written : Recipe → Json → Prop where
  | absent : Written .absent .null
  | text {content} : Written (.text content) (.str content)
  | list {items jsons} (length_eq : items.length = jsons.length)
      (each : ∀ pair ∈ items.zip jsons, Written pair.1 pair.2) : Written (.list items) (.arr jsons)
  | record {tag span insertions fields}
      (keys_eq : fields.map (·.1) = (Record.firstInserted insertions).filter (isShown span))
      (each : ∀ field ∈ fields, ∀ item, Record.lastInserted? insertions field.1 = some item →
        Written item field.2) :
      Written (.record tag span insertions)
        (.obj (tagMember tag insertions ++ fields ++ boundMembers span))

variable {recipe : Recipe} {json : Json} {tag : Option String} {span : Option Span}
  {insertions : List (String × Recipe)}

theorem inserted_values_eq (insertions : List (String × Recipe)) :
    insertedValues insertions = insertions.map fun added => (added.1, added.2.value) := by
  induction insertions with
  | nil => rfl
  | cons added insertions ih => rw [insertedValues, ih, List.map_cons]

/-- The only key of a tag is its own, and then no field has it. -/
theorem of_mem_tagMember {member : String × Json} (among : member ∈ tagMember tag insertions) :
    member.1 = Record.tagKey ∧ Record.tagKey ∉ Record.firstInserted insertions ∧
      member.2.DistinctKeys := by
  cases tag with
  | none => cases among
  | some tag =>
      rw [tagMember] at among
      split at among
      · cases among
      · next new =>
          cases List.mem_singleton.mp among
          exact ⟨rfl, fun inserted => new (List.mem_eraseDups.mp inserted), .str⟩

theorem nodup_tagMember (tag : Option String) (insertions : List (String × Recipe)) :
    ((tagMember tag insertions).map (·.1)).Nodup := by
  unfold tagMember
  repeat' split
  all_goals simp

/-- The bounds of a span have keys that no shown field has. -/
theorem of_mem_boundMembers {member : String × Json} (among : member ∈ boundMembers span) :
    Record.isSpanKey member.1 ∧ isShown span member.1 = false ∧ member.2.DistinctKeys := by
  cases span with
  | none => cases among
  | some span =>
      simp only [boundMembers, List.mem_cons, List.not_mem_nil, or_false] at among
      obtain rfl | rfl := among
      · exact ⟨rfl, rfl, .int⟩
      · exact ⟨rfl, rfl, .int⟩

theorem nodup_boundMembers (span : Option Span) : ((boundMembers span).map (·.1)).Nodup := by
  cases span with
  | none => exact List.nodup_nil
  | some span => exact (by decide : [Record.startKey, Record.stopKey].Nodup)

/-- The keys of a tag, of the fields that are shown and of bounds are distinct. -/
theorem nodup_keys (tag : Option String) {fields : List (String × Json)}
    (keys_eq : fields.map (·.1) = (Record.firstInserted insertions).filter (isShown span)) :
    ((tagMember tag insertions ++ fields ++ boundMembers span).map (·.1)).Nodup := by
  rw [List.map_append, List.map_append, keys_eq, List.nodup_append, List.nodup_append]
  refine ⟨⟨nodup_tagMember tag insertions,
    (Record.nodup_firstInserted insertions).filter _, ?_⟩, nodup_boundMembers span, ?_⟩
  · rintro key own _ shown rfl
    obtain ⟨member, among, rfl⟩ := List.mem_map.mp own
    obtain ⟨key_eq, new, -⟩ := of_mem_tagMember among
    exact new (key_eq ▸ (List.mem_filter.mp shown).1)
  · rintro key other _ bound rfl
    obtain ⟨member, among, rfl⟩ := List.mem_map.mp bound
    obtain ⟨is_bound, hidden, -⟩ := of_mem_boundMembers among
    rcases List.mem_append.mp other with own | shown
    · obtain ⟨member', among', same⟩ := List.mem_map.mp own
      have key_eq := (of_mem_tagMember among').1
      rw [← same, key_eq] at is_bound
      exact absurd is_bound (by decide)
    · rw [(List.mem_filter.mp shown).2] at hidden
      cases hidden

/-- What is written for a recipe has no key twice. -/
theorem Written.distinctKeys (h : recipe.Written json) : json.DistinctKeys := by
  induction h with
  | absent => exact .null
  | text => exact .str
  | @list items jsons length_eq _ ih =>
      refine .arr fun json among => ?_
      have paired : json ∈ (items.zip jsons).map (·.2) := by
        rwa [List.map_snd_zip (Nat.le_of_eq length_eq.symm)]
      obtain ⟨pair, both, rfl⟩ := List.mem_map.mp paired
      exact ih pair both
  | @record tag span insertions fields keys_eq _ ih =>
      refine .obj (nodup_keys tag keys_eq) fun member among => ?_
      rcases List.mem_append.mp among with among | bound
      · rcases List.mem_append.mp among with own | field
        · exact (of_mem_tagMember own).2.2
        · have shown : member.1 ∈ fields.map (·.1) := List.mem_map_of_mem field
          rw [keys_eq] at shown
          obtain ⟨item, last⟩ := Record.exists_lastInserted (List.mem_filter.mp shown).1
          exact ih member field item last
      · exact (of_mem_boundMembers bound).2.2

/-- The members of a record are those of its tag, of the fields that are shown and of its span. -/
theorem members_eq {fields : List (String × Json)}
    (keys_eq : fields.map (·.1) = Record.firstInserted insertions) :
    Record.members ⟨tag, span, fields⟩ = tagMember tag insertions ++
      fields.filter (isShown span ·.1) ++ boundMembers span := by
  have has_tag : (⟨tag, span, fields⟩ : Record Json).has Record.tagKey ↔
      Record.tagKey ∈ insertions.map (·.1) := by
    rw [Record.has_iff, Record.names, keys_eq, Record.firstInserted, List.mem_eraseDups]
  cases tag <;> cases span <;>
    simp only [Record.members, tagMember, boundMembers, isShown, has_tag] <;> simp

/-- A record is written as a recipe says if it has the fields that the recipe inserts. -/
theorem record_written {fields : List (String × Value)}
    (names_eq : fields.map (·.1) = Record.firstInserted insertions)
    (each : ∀ field ∈ fields, ∀ item, Record.lastInserted? insertions field.1 = some item →
      item.Written field.2.toJson) :
    (Recipe.record tag span insertions).Written (Value.record ⟨tag, span, fields⟩).toJson := by
  have keys_eq : (fields.map fun field => (field.1, field.2.toJson)).map (·.1) =
      Record.firstInserted insertions := by
    rw [← names_eq, List.map_map]
    rfl
  rw [toJson, fields_to_json_eq, members_eq keys_eq]
  refine .record ?_ fun field shown item last => ?_
  · rw [← keys_eq]
    exact (List.filter_map (p := isShown span) (f := Prod.fst)).symm
  · obtain ⟨captured, among, rfl⟩ := List.mem_map.mp (List.mem_filter.mp shown).1
    exact each captured among item last

mutual

/-- The JSON of a value is written as its recipe says. -/
theorem written : (recipe : Recipe) → recipe.Written recipe.value.toJson
  | .absent => .absent
  | .text _ => .text
  | .list items =>
      have each := items_written items
      .list each.length_eq fun _ both => List.forall₂_zip each both
  | .record tag span insertions => by
      have each := insertions_written insertions
      rw [value, inserted_values_eq]
      refine record_written ?_ ?_
      · exact (Record.names_ofInsertions _).trans (Record.firstInserted_map value insertions)
      · rintro ⟨name, captured⟩ among item last
        have captured_last := Record.lastInserted_of_mem among
        rw [Record.lastInserted_map, last] at captured_last
        cases captured_last
        exact each _ (Record.mem_of_lastInserted last)

/-- The items of a list are written as their recipes say. -/
theorem items_written : (items : List Recipe) →
    List.Forall₂ Written items (itemsToJson (itemValues items))
  | [] => .nil
  | item :: items => .cons (written item) (items_written items)

/-- What is inserted into a record is written as its recipe says. -/
theorem insertions_written : (insertions : List (String × Recipe)) →
    ∀ added ∈ insertions, added.2.Written added.2.value.toJson
  | [] => nofun
  | (_, item) :: insertions =>
      List.forall_mem_cons.mpr ⟨written item, insertions_written insertions⟩

end

end Recipe

/-- Written records have no key twice: whatever insertions, tags and spans a value was built with,
no object in its JSON has a key twice, and the JSON is what `Recipe.Written` says. -/
theorem distinct_keys_of_recipe (recipe : Recipe) :
    recipe.value.toJson.DistinctKeys ∧ recipe.Written recipe.value.toJson :=
  ⟨recipe.written.distinctKeys, recipe.written⟩

example : (Recipe.record (some "a") (some ⟨0, 1⟩) [("b", .absent), ("type", .text "x"),
    ("$to", .text "y"), ("b", .list [])]).value.toJson =
      .obj [("b", .arr []), ("type", .str "x"), ("$from", .nat 0), ("$to", .nat 1)] := rfl

end Value

end TracedGrammar

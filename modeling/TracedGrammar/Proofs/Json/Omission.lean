import Mathlib.Data.List.Forall2
import TracedGrammar.Json.Shape

/-!
# JSON with null members left out

A reader of records takes a missing member for null where null is one of its values. Here
`Omits json other` says that `other` is `json` with any of the null members of its objects left out,
and `Reads` that a reader reads the same value from all of these. A record has its columns
(`Omits.columns`) and a variant its tag (`Omits.variant`) as before: only the column of a null
member may be empty.

The theorem to read first is `Omits.columns`.
-/

namespace TracedGrammar.Json

/-- The members of an object with any of the null ones left out, and with related values under the
other keys. -/
inductive OmitsMembers (related : Json → Json → Prop) :
    List (String × Json) → List (String × Json) → Prop where
  | nil : OmitsMembers related [] []
  | keep {key json other members others} (value : related json other)
      (rest : OmitsMembers related members others) :
      OmitsMembers related ((key, json) :: members) ((key, other) :: others)
  | drop {key members others} (rest : OmitsMembers related members others) :
      OmitsMembers related ((key, .null) :: members) others

/-- A JSON value with any of the null members of its objects left out. -/
inductive Omits : Json → Json → Prop where
  | null : Omits .null .null
  | bool {value} : Omits (.bool value) (.bool value)
  | int {value} : Omits (.int value) (.int value)
  | fraction {mantissa places} : Omits (.fraction mantissa places) (.fraction mantissa places)
  | str {value} : Omits (.str value) (.str value)
  | arr {items others} (each : List.Forall₂ Omits items others) : Omits (.arr items) (.arr others)
  | obj {members others} (kept : OmitsMembers Omits members others) :
      Omits (.obj members) (.obj others)

/-- What a column of a record holds: the member, or nothing where the member is null. -/
inductive Finds (json : Json) : Option Json → Prop where
  | kept {other} (omits : Omits json other) : Finds json (some other)
  | dropped (null : json = .null) : Finds json none

/-- A value is read from a JSON value, whichever of its null members are left out. -/
def Reads {α : Type} (read : Json → Option α) (json : Json) (value : α) : Prop :=
  ∀ other, Omits json other → read other = some value

variable {json : Json} {members others : List (String × Json)}

mutual

/-- Nothing has to be left out. -/
theorem Omits.refl : (json : Json) → Omits json json
  | .null => .null
  | .bool _ => .bool
  | .int _ => .int
  | .fraction _ _ => .fraction
  | .str _ => .str
  | .arr items => .arr (omits_items items)
  | .obj members => .obj (omits_members members)

theorem omits_items : (items : List Json) → List.Forall₂ Omits items items
  | [] => .nil
  | item :: items => .cons (Omits.refl item) (omits_items items)

theorem omits_members : (members : List (String × Json)) → OmitsMembers Omits members members
  | [] => .nil
  | (_, json) :: members => .keep (Omits.refl json) (omits_members members)

end

theorem ne_of_mem {key : String} {member : String × Json} (among : member ∈ members)
    (new : key ∉ members.map (·.1)) : member.1 ≠ key :=
  fun same => new (List.mem_map.mpr ⟨member, among, same⟩)

namespace OmitsMembers

/-- Members are left out only. -/
theorem keys_sublist {related : Json → Json → Prop} (h : OmitsMembers related members others) :
    (others.map (·.1)).Sublist (members.map (·.1)) := by
  induction h with
  | nil => exact .slnil
  | keep _ _ ih => exact ih.cons_cons _
  | drop _ ih => exact ih.cons _

/-- Under a key of its own, a member is found or was null. -/
theorem finds (h : OmitsMembers Omits members others) (distinct : (members.map (·.1)).Nodup) :
    ∀ member ∈ members, Finds member.2 (others.lookup member.1) := by
  induction h with
  | nil => nofun
  | @keep key json other members others value rest ih =>
      obtain ⟨new, distinct⟩ := List.nodup_cons.mp distinct
      refine List.forall_mem_cons.mpr ⟨?_, fun member among => ?_⟩
      · rw [List.lookup_cons_self]
        exact .kept value
      · rw [List.lookup_cons, beq_false_of_ne (ne_of_mem among new)]
        exact ih distinct member among
  | @drop key members others rest ih =>
      obtain ⟨new, distinct⟩ := List.nodup_cons.mp distinct
      refine List.forall_mem_cons.mpr ⟨?_, ih distinct⟩
      have gone : key ∉ others.map (·.1) := fun among => new (rest.keys_sublist.subset among)
      have missing : others.lookup key = none := List.lookup_eq_none_iff.mpr fun member among =>
        bne_iff_ne.mpr (ne_of_mem among gone).symm
      rw [missing]
      exact .dropped rfl

end OmitsMembers

namespace Omits

/-- The columns of a record are its members, where null ones may be missing. -/
theorem columns (h : Omits (.obj members) json) (keys : List String)
    (keys_eq : members.map (·.1) = keys) (distinct : keys.Nodup) :
    ∃ columns, json.columns? keys = some columns ∧
      List.Forall₂ (fun member column => Finds member.2 column) members columns := by
  subst keys_eq
  cases h with
  | @obj _ others kept =>
      refine ⟨_, rfl, ?_⟩
      rw [List.map_map]
      exact List.forall₂_map_right_iff.mpr (List.forall₂_same.mpr (kept.finds distinct))

/-- A variant has its tag, and a record with the other members beside it. -/
theorem variant {key tag : String} (h : Omits (.obj ((key, .str tag) :: members)) json)
    (keys : List String) (keys_eq : members.map (·.1) = keys) (apart : key ∉ keys) :
    ∃ body, json.variant? key = some (.str tag, body) ∧ Omits (.obj members) body := by
  subst keys_eq
  cases h with
  | obj kept =>
      cases kept with
      | @keep _ _ _ _ others value rest =>
          cases value
          have gone : key ∉ others.map (·.1) := fun among => apart (rest.keys_sublist.subset among)
          have others_kept : others.filter (·.1 ≠ key) = others :=
            List.filter_eq_self.mpr fun member among => decide_eq_true (ne_of_mem among gone)
          refine ⟨.obj others, ?_, .obj rest⟩
          simp only [variant?, List.lookup_cons_self, Option.map_some]
          rw [List.filter_cons_of_neg (by simp), others_kept]

/-- A variant whose record has keys of its own has its tag and its columns. -/
theorem variant_columns {key tag : String}
    (h : Omits (.obj ((key, .str tag) :: members)) json) (keys : List String)
    (keys_eq : members.map (·.1) = keys) (distinct : (key :: keys).Nodup) :
    ∃ body columns, json.variant? key = some (.str tag, body) ∧
      body.columns? keys = some columns ∧
      List.Forall₂ (fun member column => Finds member.2 column) members columns := by
  obtain ⟨apart, distinct⟩ := List.nodup_cons.mp distinct
  obtain ⟨body, variant_eq, omits⟩ := h.variant keys keys_eq apart
  obtain ⟨columns, columns_eq, found⟩ := omits.columns keys keys_eq distinct
  exact ⟨body, columns, variant_eq, columns_eq, found⟩

end Omits

section

variable {α : Type} {read : Json → Option α} {value : α} {column : Option Json}

theorem reads_text (text : String) : Reads asText? (.str text) text := by
  rintro _ ⟨⟩
  rfl

theorem reads_bool (value : Bool) : Reads asBool? (.bool value) value := by
  rintro _ ⟨⟩
  rfl

theorem reads_char (char : Char) : Reads asChar? (.str (String.singleton char)) char := by
  rintro _ ⟨⟩
  rw [asChar?, String.toList_singleton]

theorem reads_nat {bound number : Nat} (below : number < bound) :
    Reads (asNatBelow? bound) (.nat number) number := by
  rintro _ ⟨⟩
  rw [asNatBelow?, if_pos ⟨Int.natCast_nonneg number, Int.ofNat_lt.mpr below⟩, Int.toNat_natCast]

theorem reads_offset {offset : Nat} (narrow : offset < UInt64.size) :
    Reads asOffset? (.nat offset) offset :=
  reads_nat narrow

namespace Finds

/-- A column that must not be null is there, and is read. -/
theorem exists_read (h : Finds json column) (strict : read .null = none)
    (reads : Reads read json value) : ∃ other, column = some other ∧ read other = some value := by
  cases h with
  | kept omits => exact ⟨_, rfl, reads _ omits⟩
  | dropped null =>
      -- only null may be missing, and that the reader refuses
      subst null
      have found := reads _ .null
      rw [strict] at found
      cases found

/-- A column with a list is there, and its items are read. -/
theorem exists_read_list {write : α → Json} {items : List α}
    (h : Finds (.arr (items.map write)) column)
    (each : ∀ item ∈ items, Reads read (write item) item) :
    ∃ other jsons, column = some other ∧ other.asList? = some jsons ∧
      jsons.mapM read = some items := by
  obtain ⟨omits⟩ | ⟨⟨⟩⟩ := h
  cases omits with
  | @arr _ others kept =>
      refine ⟨_, others, rfl, rfl, ?_⟩
      induction items generalizing others with
      | nil => cases kept; rfl
      | cons item items ih =>
          obtain _ | ⟨first, rest⟩ := kept
          obtain ⟨first_reads, each⟩ := List.forall_mem_cons.mp each
          rw [List.mapM_cons, first_reads _ first, ih each rest]
          rfl

/-- A column that may be null is read, there or not. -/
theorem optional_read {write : α → Json} {value? : Option α}
    (h : Finds ((value?.map write).getD .null) column) (strict : read .null = none)
    (reads : ∀ value ∈ value?, Reads read (write value) value) :
    optional? read column = some value? := by
  cases value? with
  | none =>
      cases h with
      | kept omits => cases omits; rfl
      | dropped => rfl
  | some value =>
      obtain ⟨other, rfl, found⟩ := h.exists_read strict (reads value rfl)
      have present : other ≠ .null := by
        rintro rfl
        rw [strict] at found
        cases found
      rw [optional?, found]
      · rfl
      · exact present

end Finds

end

end TracedGrammar.Json

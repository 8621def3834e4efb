import TracedGrammar.Proofs.Grammar.Adequacy
import TracedGrammar.Proofs.Grammar.Assembly
import TracedGrammar.Proofs.Trace.Boundaries
import TracedGrammar.Proofs.Value.Positions

/-!
# Spans nest as the records do

Each value of a match was made between two offsets, its extent, and a record has its extent as its
span. The children of a value have extents within that of the value and apart from each other, those
of a list in the order of the items (`Value.Laid`). A field that is captured once more moves to the
end of the text that was read, but keeps its place in the record. So the fields of a record need not
be in the order of their spans.

The theorem to read first is `spans_nest_of_match`.
-/

namespace TracedGrammar

namespace Span

/-- One span lies in another one. -/
def Inside (inner outer : Span) : Prop :=
  outer.start ≤ inner.start ∧ inner.stop ≤ outer.stop

/-- A span ends before another one begins, or where it begins. -/
def Before (first second : Span) : Prop :=
  first.stop ≤ second.start

/-- Two spans have no byte in common, as one of them ends before the other one begins. -/
def Apart (first second : Span) : Prop :=
  first.Before second ∨ second.Before first

variable {inner outer inner' outer' : Span}

theorem Inside.refl (span : Span) : span.Inside span :=
  ⟨Nat.le_refl _, Nat.le_refl _⟩

theorem Inside.trans {middle : Span} (h : inner.Inside middle) (h' : middle.Inside outer) :
    inner.Inside outer :=
  ⟨h'.1.trans h.1, h.2.trans h'.2⟩

theorem Before.inside (h : outer.Before outer') (within : inner.Inside outer)
    (within' : inner'.Inside outer') : inner.Before inner' :=
  within.2.trans (Nat.le_trans h within'.1)

theorem Apart.inside (h : outer.Apart outer') (within : inner.Inside outer)
    (within' : inner'.Inside outer') : inner.Apart inner' :=
  h.imp (·.inside within within') (·.inside within' within)

end Span

/-- A value was made in an extent of the text: its children were made in extents that lie in it and
apart from each other, those of a list in order, and a record has its extent as its span. -/
inductive Value.Laid : Value → Span → Prop where
  | intro {value extent extents} (onward : extent.start ≤ extent.stop)
      (each : List.Forall₂ Laid value.children extents)
      (within : ∀ inner ∈ extents, inner.Inside extent)
      (apart : extents.Pairwise Span.Apart)
      (ordered : ∀ items, value = .list items → extents.Pairwise Span.Before)
      (own : ∀ record, value = .record record → record.span = some extent) :
      Laid value extent

/-- The fields of a record were made in extents that lie in an extent and apart from each other. -/
def Record.FieldsLaid (fields : List (String × Value)) (extent : Span) : Prop :=
  ∃ extents, List.Forall₂ Value.Laid (fields.map (·.2)) extents ∧
    (∀ inner ∈ extents, inner.Inside extent) ∧ extents.Pairwise Span.Apart

/-- The spans of the records in a value lie within the first bytes of the text, and among each other
as the records do: a record below another one has its span in that of the other one, records below
different children of a value have theirs apart, and records below different items of a list have
them in the order of the items. -/
structure Value.SpansNest (value : Value) (consumed : Nat) : Prop where
  spanned : ∀ path record, value.at? path = some (.record record) → ∃ span,
    record.span = some span ∧ span.start ≤ span.stop ∧ span.stop ≤ consumed
  inside : ∀ path further outer inner, value.spanAt? path = some outer →
    value.spanAt? (path ++ further) = some inner → inner.Inside outer
  apart : ∀ path first second further further' span span', first ≠ second →
    value.spanAt? (path ++ first :: further) = some span →
    value.spanAt? (path ++ second :: further') = some span' → span.Apart span'
  ordered : ∀ path items first second further further' span span', first < second →
    value.at? path = some (.list items) →
    value.spanAt? (path ++ first :: further) = some span →
    value.spanAt? (path ++ second :: further') = some span' → span.Before span'

/-- What is related to one of the items of a list is at the same position. -/
theorem exists_related {α β : Type} {related : α → β → Prop} {items : List α} {others : List β}
    (each : List.Forall₂ related items others) {position : Nat} {item : α}
    (found : items[position]? = some item) :
    ∃ other, others[position]? = some other ∧ related item other := by
  induction each generalizing position with
  | nil => cases found
  | cons first _ ih =>
      cases position with
      | zero =>
          cases found
          exact ⟨_, rfl, first⟩
      | succ position => exact ih found

/-- Items of a list at different positions are related if they are pairwise. -/
theorem related_of_pairwise {α : Type} {related : α → α → Prop} {items : List α}
    (pairwise : items.Pairwise related) {first second : Nat} {left right : α}
    (later : first < second) (found : items[first]? = some left)
    (found' : items[second]? = some right) : related left right := by
  obtain ⟨in_range, rfl⟩ := List.getElem?_eq_some_iff.mp found
  obtain ⟨in_range', rfl⟩ := List.getElem?_eq_some_iff.mp found'
  exact List.pairwise_iff_getElem.mp pairwise _ _ in_range in_range' later

/-! ### Laying values -/

section

variable {value : Value} {items : List Value} {fields : List (String × Value)}
  {extents : List Span} {extent : Span} {start middle stop : Nat}

namespace Value.Laid

theorem onward (h : Laid value extent) : extent.start ≤ extent.stop := by
  obtain ⟨onward, -⟩ := h
  exact onward

/-- A value without children that is no record can be anywhere. -/
theorem leaf (childless : value.children = []) (no_record : ∀ record, value ≠ .record record)
    (onward : start ≤ stop) : Laid value ⟨start, stop⟩ := by
  have each : List.Forall₂ Laid value.children [] := by
    rw [childless]
    exact .nil
  exact .intro onward each nofun .nil (fun _ _ => .nil) fun record same =>
    absurd same (no_record record)

/-- A list goes on with an item that was made behind it. -/
theorem next_item (h : Laid (.list items) ⟨start, middle⟩) (next : value.Laid ⟨middle, stop⟩) :
    Laid (.list (items ++ [value])) ⟨start, stop⟩ := by
  have further : middle ≤ stop := next.onward
  cases h with
  | @intro _ _ extents onward each within _ ordered =>
      have in_order : List.Pairwise Span.Before (extents ++ [⟨middle, stop⟩]) := by
        refine List.pairwise_append.mpr ⟨ordered items rfl, List.pairwise_singleton .., ?_⟩
        intro inner among last is_last
        cases List.mem_singleton.mp is_last
        exact (within inner among).2
      refine .intro (onward.trans further) (List.rel_append each (.cons next .nil)) ?_
        (in_order.imp .inl) (fun _ _ => in_order) nofun
      intro inner among
      rcases List.mem_append.mp among with among | among
      · exact (within inner among).trans ⟨Nat.le_refl _, further⟩
      · cases List.mem_singleton.mp among
        exact ⟨onward, Nat.le_refl _⟩

end Value.Laid

namespace Record.FieldsLaid

/-- A new value takes its place among the fields, and its extent takes the same place among the
extents. -/
theorem exists_extents (each : List.Forall₂ Value.Laid (fields.map (·.2)) extents)
    (apart : extents.Pairwise Span.Apart) (beyond : ∀ inner ∈ extents, inner.Before extent)
    (name : String) (next : value.Laid extent) :
    ∃ extents', List.Forall₂ Value.Laid ((insertField name value fields).map (·.2)) extents' ∧
      (∀ inner ∈ extents', inner ∈ extents ∨ inner = extent) ∧ extents'.Pairwise Span.Apart := by
  induction fields generalizing extents with
  | nil =>
      exact ⟨[extent], .cons next .nil, fun inner among => .inr (List.mem_singleton.mp among),
        List.pairwise_singleton ..⟩
  | cons field fields ih =>
      rw [List.map_cons] at each
      cases each with
      | @cons _ first _ extents laid each =>
          obtain ⟨first_apart, apart⟩ := List.pairwise_cons.mp apart
          have rest_beyond : ∀ inner ∈ extents, inner.Before extent :=
            fun inner among => beyond inner (.tail _ among)
          by_cases same : field.1 = name
          · rw [insertField, if_pos same]
            refine ⟨extent :: extents, .cons next each, fun inner among => ?_,
              .cons (fun inner among => .inr (rest_beyond inner among)) apart⟩
            exact (List.mem_cons.mp among).symm.imp_left (.tail _)
          · rw [insertField, if_neg same]
            obtain ⟨extents', each', among', apart'⟩ := ih each apart rest_beyond
            refine ⟨first :: extents', .cons laid each', fun inner among => ?_,
              .cons (fun inner among => ?_) apart'⟩
            · rcases List.mem_cons.mp among with rfl | among
              · exact .inl List.mem_cons_self
              · exact (among' inner among).imp_left (.tail _)
            · rcases among' inner among with among | rfl
              · exact first_apart inner among
              · exact .inl (beyond first List.mem_cons_self)

/-- A record gets one more value that was made behind the others, also in the place of an earlier
one. -/
theorem insert (h : FieldsLaid fields ⟨start, middle⟩) (begun : start ≤ middle) (name : String)
    (next : value.Laid ⟨middle, stop⟩) :
    FieldsLaid (insertField name value fields) ⟨start, stop⟩ := by
  obtain ⟨extents, each, within, apart⟩ := h
  have beyond : ∀ inner ∈ extents, inner.Before ⟨middle, stop⟩ :=
    fun inner among => (within inner among).2
  obtain ⟨extents', each', among', apart'⟩ := exists_extents each apart beyond name next
  have further : middle ≤ stop := next.onward
  refine ⟨extents', each', fun inner among => ?_, apart'⟩
  rcases among' inner among with among | rfl
  · exact (within inner among).trans ⟨Nat.le_refl _, further⟩
  · exact ⟨begun, Nat.le_refl _⟩

theorem mono (h : FieldsLaid fields ⟨start, middle⟩) (further : middle ≤ stop) :
    FieldsLaid fields ⟨start, stop⟩ := by
  obtain ⟨extents, each, within, apart⟩ := h
  exact ⟨extents, each, fun inner among => (within inner among).trans ⟨Nat.le_refl _, further⟩,
    apart⟩

/-- A rule closes its record, which gets the extent as its span. -/
theorem closed (h : FieldsLaid fields extent) (onward : extent.start ≤ extent.stop)
    (tag : Option String) : Value.Laid (.record ⟨tag, some extent, fields⟩) extent := by
  obtain ⟨extents, each, within, apart⟩ := h
  refine .intro onward each within apart nofun fun record same => ?_
  cases same
  rfl

end Record.FieldsLaid

end

/-- Every match lays its value where it read the text. -/
theorem Grammar.assembles_laid (grammar : Grammar) :
    grammar.Assembles (fun begun value after => value.Laid ⟨begun.offset, after.offset⟩)
      (fun _ begun record after => begun.offset ≤ after.offset ∧
        Record.FieldsLaid record.fields ⟨begun.offset, after.offset⟩) where
  text read := .leaf rfl nofun (Cursor.Before.offset_le ⟨_, read⟩)
  absent := .leaf rfl nofun (Nat.le_refl _)
  no_items := .leaf rfl nofun (Nat.le_refl _)
  next_item items next := items.next_item next
  no_fields _ := ⟨Nat.le_refl _, [], .nil, nofun, .nil⟩
  next_part := by
    rintro part parts begun record cursor value after ⟨onward, laid⟩ next
    refine ⟨onward.trans next.onward, ?_⟩
    cases named : part.field with
    | none =>
        rw [Part.keep, named]
        exact laid.mono next.onward
    | some ident =>
        rw [Part.keep, named]
        exact laid.insert onward ident.name next
  record := fun ⟨onward, laid⟩ => laid.closed onward _

/-! ### Spans in a laid value -/

namespace Value.Laid

variable {value found : Value} {extent span span' : Span} {path further further' : List Nat}
  {first second : Nat}

/-- What is below a value was made in an extent within that of the value. -/
theorem exists_inner (h : value.Laid extent) (at_path : value.at? path = some found) :
    ∃ inner, found.Laid inner ∧ inner.Inside extent := by
  induction path generalizing value extent with
  | nil =>
      cases at_path
      exact ⟨extent, h, .refl extent⟩
  | cons step path ih =>
      obtain ⟨child, at_step, at_path⟩ := at_cons_eq_some_iff.mp at_path
      obtain ⟨onward, each, within, -⟩ := h
      obtain ⟨middle, middle_at, laid⟩ := exists_related each at_step
      obtain ⟨inner, found_laid, inside⟩ := ih laid at_path
      exact ⟨inner, found_laid, inside.trans (within middle (List.mem_of_getElem? middle_at))⟩

theorem span_inside (h : value.Laid extent) (found : value.spanAt? path = some span) :
    span.Inside extent ∧ span.start ≤ span.stop := by
  obtain ⟨record, at_path, span_eq⟩ := span_at_eq_some_iff.mp found
  obtain ⟨inner, laid, inside⟩ := h.exists_inner at_path
  obtain ⟨onward, -, -, -, -, own⟩ := laid
  cases span_eq.symm.trans (own record rfl)
  exact ⟨inside, onward⟩

/-- Records below different children of a value have their spans apart, and in the order of the
children if these are the items of a list. -/
theorem spans_apart (h : value.Laid extent) (later : first < second)
    (found : value.spanAt? (first :: further) = some span)
    (found' : value.spanAt? (second :: further') = some span') :
    span.Apart span' ∧ ∀ items, value = .list items → span.Before span' := by
  obtain ⟨onward, each, -, apart, ordered, -⟩ := h
  obtain ⟨record, at_path, span_eq⟩ := span_at_eq_some_iff.mp found
  obtain ⟨record', at_path', span_eq'⟩ := span_at_eq_some_iff.mp found'
  obtain ⟨left, at_first, at_path⟩ := at_cons_eq_some_iff.mp at_path
  obtain ⟨right, at_second, at_path'⟩ := at_cons_eq_some_iff.mp at_path'
  obtain ⟨inner, inner_at, laid⟩ := exists_related each at_first
  obtain ⟨inner', inner_at', laid'⟩ := exists_related each at_second
  have inside := (laid.span_inside (span_at_eq_some_iff.mpr ⟨record, at_path, span_eq⟩)).1
  have inside' := (laid'.span_inside (span_at_eq_some_iff.mpr ⟨record', at_path', span_eq'⟩)).1
  refine ⟨?_, fun items is_list => ?_⟩
  · exact (related_of_pairwise apart later inner_at inner_at').inside inside inside'
  · exact (related_of_pairwise (ordered items is_list) later inner_at inner_at').inside inside
      inside'

/-- The spans in a value that was laid nest. -/
theorem spans_nest (h : value.Laid extent) : value.SpansNest extent.stop where
  spanned path record at_path := by
    obtain ⟨inner, laid, inside⟩ := h.exists_inner at_path
    obtain ⟨onward, -, -, -, -, own⟩ := laid
    exact ⟨inner, own record rfl, onward, inside.2⟩
  inside path further outer inner found found' := by
    obtain ⟨record, at_path, span_eq⟩ := span_at_eq_some_iff.mp found
    obtain ⟨below, at_below, found'⟩ := span_at_append.mp found'
    cases at_path.symm.trans at_below
    obtain ⟨middle, laid, -⟩ := h.exists_inner at_path
    have inside := (laid.span_inside found').1
    obtain ⟨-, -, -, -, -, own⟩ := laid
    cases span_eq.symm.trans (own record rfl)
    exact inside
  apart path first second further further' span span' different found found' := by
    obtain ⟨parent, at_path, found⟩ := span_at_append.mp found
    obtain ⟨parent', at_path', found'⟩ := span_at_append.mp found'
    cases at_path.symm.trans at_path'
    obtain ⟨inner, laid, -⟩ := h.exists_inner at_path
    rcases Nat.lt_or_gt_of_ne different with later | earlier
    · exact (laid.spans_apart later found found').1
    · exact (laid.spans_apart earlier found' found).1.symm
  ordered path items first second further further' span span' later is_list found found' := by
    obtain ⟨parent, at_path, found⟩ := span_at_append.mp found
    obtain ⟨parent', at_path', found'⟩ := span_at_append.mp found'
    cases at_path.symm.trans is_list
    cases at_path'.symm.trans is_list
    obtain ⟨inner, laid, -⟩ := h.exists_inner is_list
    exact (laid.spans_apart later found found').2 items rfl

end Value.Laid

/-- The spans in the value of a match nest as its records do, and lie within the text that was
consumed. -/
theorem spans_nest_of_match {grammar : Grammar} {maxDepth : Nat} {program : Program}
    {start text : String} {value : Value} {offset : Nat}
    (compiled : grammar.compile maxDepth = .ok program)
    (ran : program.run start text = .ok (.matched value, offset)) : value.SpansNest offset := by
  obtain ⟨after, means, rfl⟩ := means_of_run compiled ran
  have laid : value.Laid ⟨0, after.offset⟩ := means.assembled grammar.assembles_laid rfl
  exact laid.spans_nest

/-- The marks of the example have their spans one behind the other, in that of the line. -/
theorem spans_nest_of_line : ∃ program, lineGrammar.compile 9 = .ok program ∧
    program.run "line" "a.b.cc?" = .ok (.matched lineValue, 6) ∧
    lineValue.spanAt? [] = some ⟨0, 6⟩ ∧ lineValue.spanAt? [0, 0] = some ⟨0, 2⟩ ∧
    lineValue.spanAt? [0, 1] = some ⟨2, 4⟩ ∧ Span.Before ⟨0, 2⟩ ⟨2, 4⟩ ∧
    lineValue.SpansNest 6 := by
  obtain ⟨program, compiled⟩ : ∃ program, lineGrammar.compile 9 = .ok program := ⟨_, rfl⟩
  have ran := run_line compiled
  have nest := spans_nest_of_match compiled ran
  exact ⟨program, compiled, ran, rfl, rfl, rfl,
    nest.ordered [0] _ 0 1 [] [] _ _ (by decide) rfl rfl rfl, nest⟩

end TracedGrammar

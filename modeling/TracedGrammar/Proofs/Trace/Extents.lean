import TracedGrammar.Proofs.Display.Projection
import TracedGrammar.Proofs.Trace.Brackets
import TracedGrammar.Proofs.Trace.Rollback
import TracedGrammar.Proofs.Value.Positions

/-!
# Traces tell which rule matched which range

The records of a value have spans, which the events of a trace do not carry. They can be read off
nevertheless: for each record there is a stretch of the trace from the start of its rule to the
end, and the offsets that the cursor is at there, as told by the events before, are the bounds of
its span. The stretches lie as the records do: inside each other, apart, and for the items of a list
one after the other (`Value.Placed`).

The rules of failed attempts and of parts whose value is not kept have stretches as well, so that
not every stretch belongs to a record. The induction on derivations, `Traced.placed`, builds the
places along with the value.

The theorem to read first is `extents_of_match`.
-/

namespace TracedGrammar

/-- The offset that events leave a cursor at which was at the offset `start` before. From the start
of a text on this is `replayedOffset`. -/
def replayFrom (start : Nat) (events : List Event) : Nat :=
  (events.filterMap Event.offset?).getLast?.getD start

/-- A stretch of a trace, by the positions of the events that it begins and ends with. -/
structure Stretch where
  enter : Nat
  exit : Nat

namespace Stretch

/-- The stretch where a number of events comes before the others. -/
def shift (stretch : Stretch) (number : Nat) : Stretch :=
  ⟨stretch.enter + number, stretch.exit + number⟩

/-- A stretch lies in another one and shares no end with it. -/
def Inside (inner outer : Stretch) : Prop :=
  outer.enter < inner.enter ∧ inner.exit < outer.exit

/-- A stretch ends before another one begins. -/
def Before (first second : Stretch) : Prop :=
  first.exit < second.enter

/-- Two stretches have no event in common. -/
def Apart (first second : Stretch) : Prop :=
  first.Before second ∨ second.Before first

/-- A stretch begins with the start of a rule and ends with the end of the same one, at the offsets
of a span. The events leave the cursor where the span tells, if it was at the offset `start` before
them. -/
def Brackets (start : Nat) (events : List Event) (stretch : Stretch) (rule : String)
    (span : Span) : Prop :=
  ∃ before inner after, events = before ++ .ruleEnter rule :: (inner ++ .ruleExit rule :: after) ∧
    stretch = ⟨before.length, before.length + 1 + inner.length⟩ ∧ Balanced inner ∧
    replayFrom start before = span.start ∧
    replayFrom start (before ++ .ruleEnter rule :: inner) = span.stop

end Stretch

/-- Each record of a value, by its position, has a stretch of the events where its rule matched its
span. A record below another one has its stretch inside the stretch of the other one, records below
different children of a value have theirs apart, and below different items of a list they are in the
order of the items. -/
structure Value.Placed (start : Nat) (events : List Event) (value : Value)
    (place : List Nat → Stretch) : Prop where
  brackets : ∀ path record, value.at? path = some (.record record) → ∃ rule span,
    record.tag = some rule ∧ record.span = some span ∧
      (place path).Brackets start events rule span
  inside : ∀ path further outer inner, value.at? path = some (.record outer) →
    value.at? (path ++ further) = some (.record inner) → further ≠ [] →
    (place (path ++ further)).Inside (place path)
  apart : ∀ path first second further further' record record', first < second →
    value.at? (path ++ first :: further) = some (.record record) →
    value.at? (path ++ second :: further') = some (.record record') →
    (place (path ++ first :: further)).Apart (place (path ++ second :: further'))
  ordered : ∀ path items first second further further' record record', first < second →
    value.at? path = some (.list items) →
    value.at? (path ++ first :: further) = some (.record record) →
    value.at? (path ++ second :: further') = some (.record record') →
    (place (path ++ first :: further)).Before (place (path ++ second :: further'))

/-- Each of the values is placed, and records of different ones have stretches that are related. -/
structure PlacedAll (related : Stretch → Stretch → Prop) (start : Nat) (events : List Event)
    (values : List Value) (place : List Nat → Stretch) : Prop where
  each : ∀ step (value : Value), values[step]? = some value →
    value.Placed start events fun path => place (step :: path)
  related : ∀ first second path path' (left right : Value) record record', first < second →
    values[first]? = some left → left.at? path = some (.record record) →
    values[second]? = some right → right.at? path' = some (.record record') →
    related (place (first :: path)) (place (second :: path'))

section

variable {start number : Nat} {events first second more earlier : List Event} {rule : String}
  {span : Span} {value : Value} {values : List Value} {place place' : List Nat → Stretch}
  {stretch stretch' : Stretch} {related : Stretch → Stretch → Prop}

@[simp] theorem replay_from_append :
    replayFrom start (first ++ second) = replayFrom (replayFrom start first) second := by
  rw [replayFrom, List.filterMap_append, List.getLast?_append, replayFrom, replayFrom]
  cases (second.filterMap Event.offset?).getLast? <;> rfl

@[simp] theorem replay_from_nil : replayFrom start [] = start :=
  rfl

@[simp] theorem replay_from_cons (event : Event) :
    replayFrom start (event :: events) = replayFrom (event.offset?.getD start) events := by
  have first : replayFrom start [event] = event.offset?.getD start := by
    rw [replayFrom]
    cases h : event.offset? <;> simp [h]
  rw [← List.singleton_append, replay_from_append, first]

theorem replay_from_silent (silent : ∀ event ∈ events, event.offset? = none) :
    replayFrom start events = start := by
  rw [replayFrom, List.filterMap_eq_nil_iff.mpr silent]
  rfl

@[simp] theorem replay_from_shows (node : NodeId) (text : String) (kind : NodeKind) :
    replayFrom start (Event.shows node text kind) = start :=
  rfl

@[simp] theorem replay_from_open_parts (node : NodeId) (named count : Nat)
    (parts : List (Option String × Expr)) :
    replayFrom start (Event.openParts node named count parts) = start :=
  replay_from_silent (silent_openParts node named count parts)

@[simp] theorem replay_from_close_rule (rule : String) (reply : Reply) :
    replayFrom start (Event.closeRule rule reply) = start := by
  cases reply <;> rfl

/-- Where the cursor is after an alternative of a choice, put back or not. -/
theorem replay_from_put_back (begun : Cursor) (reply : Reply) :
    replayFrom reply.context.offset (Event.putBack begun.offset reply) =
      (reply.putBack begun).context.offset := by
  rcases reply with ⟨value | captured, after⟩ | ⟨fault, after⟩ <;> rfl

namespace Stretch

theorem Brackets.exit_lt (h : stretch.Brackets start events rule span) :
    stretch.enter < stretch.exit ∧ stretch.exit < events.length := by
  obtain ⟨before, inner, after, rfl, rfl, -⟩ := h
  simp only [List.length_append, List.length_cons]
  omega

/-- What is a rule among some events is one behind others. -/
theorem Brackets.behind (h : stretch.Brackets (replayFrom start earlier) events rule span) :
    (stretch.shift earlier.length).Brackets start (earlier ++ events) rule span := by
  obtain ⟨before, inner, after, rfl, rfl, balanced, start_eq, stop_eq⟩ := h
  refine ⟨earlier ++ before, inner, after, by simp, ?_, balanced, ?_, ?_⟩
  · simp only [shift, List.length_append, Stretch.mk.injEq]
    omega
  · rw [replay_from_append, start_eq]
  · rw [List.append_assoc, replay_from_append, stop_eq]

theorem Brackets.mono (h : stretch.Brackets start events rule span) (more : List Event) :
    stretch.Brackets start (events ++ more) rule span := by
  obtain ⟨before, inner, after, rfl, rfl, rest⟩ := h
  exact ⟨before, inner, after ++ more, by simp, rfl, rest⟩

theorem Inside.shift (h : stretch.Inside stretch') (number : Nat) :
    (stretch.shift number).Inside (stretch'.shift number) :=
  ⟨Nat.add_lt_add_right h.1 number, Nat.add_lt_add_right h.2 number⟩

theorem Before.shift (h : stretch.Before stretch') (number : Nat) :
    (stretch.shift number).Before (stretch'.shift number) :=
  Nat.add_lt_add_right h number

theorem Apart.shift (h : stretch.Apart stretch') (number : Nat) :
    (stretch.shift number).Apart (stretch'.shift number) :=
  h.imp (·.shift number) (·.shift number)

end Stretch

/-- A value that is placed in some events is placed behind others as well. -/
theorem Value.Placed.behind {offset : Nat} (h : value.Placed offset events place)
    (earlier : List Event) (begun : replayFrom start earlier = offset) :
    value.Placed start (earlier ++ events) fun path => (place path).shift earlier.length where
  brackets path record found := by
    obtain ⟨rule, span, tag_eq, span_eq, brackets⟩ := h.brackets path record found
    exact ⟨rule, span, tag_eq, span_eq, (begun ▸ brackets).behind⟩
  inside path further outer inner found found' deeper :=
    (h.inside path further outer inner found found' deeper).shift _
  apart path first second further further' record record' later found found' :=
    (h.apart path first second further further' record record' later found found').shift _
  ordered path items first second further further' record record' later listed found found' :=
    (h.ordered path items first second further further' record record' later listed found
      found').shift _

/-- A value stays placed when events follow. -/
theorem Value.Placed.mono (h : value.Placed start events place) (more : List Event) :
    value.Placed start (events ++ more) place where
  brackets path record found := by
    obtain ⟨rule, span, tag_eq, span_eq, brackets⟩ := h.brackets path record found
    exact ⟨rule, span, tag_eq, span_eq, brackets.mono more⟩
  inside := h.inside
  apart := h.apart
  ordered := h.ordered

theorem PlacedAll.behind {offset : Nat}
    (h : PlacedAll Stretch.Apart offset events values place) (earlier : List Event)
    (begun : replayFrom start earlier = offset) :
    PlacedAll Stretch.Apart start (earlier ++ events) values
      fun path => (place path).shift earlier.length where
  each step value found := (h.each step value found).behind earlier begun
  related first second path path' left right record record' later found at_path found' at_path' :=
    (h.related first second path path' left right record record' later found at_path found'
      at_path').shift _

theorem PlacedAll.mono (h : PlacedAll related start events values place) (more : List Event) :
    PlacedAll related start (events ++ more) values place :=
  ⟨fun step value found => (h.each step value found).mono more, h.related⟩

/-- A value is placed if its children are, and if it is a record that has a stretch around them. -/
theorem PlacedAll.placed (all : PlacedAll related start events value.children place)
    (apart : ∀ stretch stretch', related stretch stretch' → stretch.Apart stretch')
    (listed : ∀ items, value = .list items →
      ∀ stretch stretch', related stretch stretch' → stretch.Before stretch')
    (own : ∀ record, value = .record record → ∃ rule span, record.tag = some rule ∧
      record.span = some span ∧ (place []).Brackets start events rule span)
    (around : ∀ outer step path inner, value = .record outer →
      value.at? (step :: path) = some (.record inner) →
      (place (step :: path)).Inside (place [])) : value.Placed start events place where
  brackets path record found := by
    cases path with
    | nil => exact own record (Option.some.inj found)
    | cons step path =>
        obtain ⟨child, at_step, below⟩ := Option.bind_eq_some_iff.mp found
        exact (all.each step child at_step).brackets path record below
  inside path further outer inner found found' deeper := by
    cases path with
    | nil =>
        cases further with
        | nil => exact absurd rfl deeper
        | cons step further => exact around outer step further inner (Option.some.inj found) found'
    | cons step path =>
        obtain ⟨child, at_step, below⟩ := Option.bind_eq_some_iff.mp found
        obtain ⟨child', at_step', below'⟩ := Option.bind_eq_some_iff.mp found'
        cases at_step.symm.trans at_step'
        exact (all.each step child at_step).inside path further outer inner below below' deeper
  apart path first second further further' record record' later found found' := by
    cases path with
    | nil =>
        obtain ⟨left, at_first, below⟩ := Option.bind_eq_some_iff.mp found
        obtain ⟨right, at_second, below'⟩ := Option.bind_eq_some_iff.mp found'
        exact apart _ _ (all.related first second further further' left right record record' later
          at_first below at_second below')
    | cons step path =>
        obtain ⟨child, at_step, below⟩ := Option.bind_eq_some_iff.mp found
        obtain ⟨child', at_step', below'⟩ := Option.bind_eq_some_iff.mp found'
        cases at_step.symm.trans at_step'
        exact (all.each step child at_step).apart path first second further further' record record'
          later below below'
  ordered path items first second further further' record record' later is_list found found' := by
    cases path with
    | nil =>
        obtain ⟨left, at_first, below⟩ := Option.bind_eq_some_iff.mp found
        obtain ⟨right, at_second, below'⟩ := Option.bind_eq_some_iff.mp found'
        exact listed items (Option.some.inj is_list) _ _ (all.related first second further further'
          left right record record' later at_first below at_second below')
    | cons step path =>
        obtain ⟨child, at_step, below⟩ := Option.bind_eq_some_iff.mp found
        obtain ⟨child', at_step', below'⟩ := Option.bind_eq_some_iff.mp found'
        obtain ⟨child'', at_step'', is_list⟩ := Option.bind_eq_some_iff.mp is_list
        cases at_step.symm.trans at_step'
        cases at_step.symm.trans at_step''
        exact (all.each step child at_step).ordered path items first second further further' record
          record' later is_list below below'

/-- Nothing has to be placed where there are no values. -/
theorem placed_all_nil : PlacedAll related start events [] place where
  each step value found := by cases found
  related first second path path' left right record record' later found := by cases found

/-- A value without records is placed anyhow. -/
theorem placed_leaf (leaf : value.children = []) (no_record : ∀ record, value ≠ .record record) :
    value.Placed start events place := by
  have none_below : PlacedAll Stretch.Before start events value.children place := by
    rw [leaf]
    exact placed_all_nil
  exact none_below.placed (fun _ _ => .inl) (fun _ _ _ _ before => before)
    (fun record same => absurd same (no_record record))
    (fun outer _ _ _ same => absurd same (no_record outer))

theorem placed_list (all : PlacedAll Stretch.Before start events values place) :
    (Value.list values).Placed start events place := by
  have items : PlacedAll Stretch.Before start events (Value.list values).children place := all
  exact items.placed (fun _ _ => .inl) (fun _ _ _ _ before => before)
    (fun record same => by cases same) (fun outer _ _ _ same => by cases same)

/-- The places of a rule and of its fields, where the rule opens before a number of events and
closes behind them. -/
def placeAround (number : Nat) (place : List Nat → Stretch) : List Nat → Stretch
  | [] => ⟨0, 0 + 1 + number⟩
  | step :: path => (place (step :: path)).shift 1

/-- The record of a rule is placed around its fields. -/
theorem placed_rule {fields : List (String × Value)} {inner : List Event}
    (balanced : Balanced inner)
    (all : PlacedAll Stretch.Apart start inner (fields.map (·.2)) place) (rule : String) :
    ∃ place, (Value.record ⟨some rule, some ⟨start, replayFrom start inner⟩, fields⟩).Placed start
      (.ruleEnter rule :: (inner ++ [.ruleExit rule])) place := by
  have moved := (all.mono [.ruleExit rule]).behind [.ruleEnter rule] rfl
  have within : PlacedAll Stretch.Apart start (.ruleEnter rule :: (inner ++ [.ruleExit rule]))
      (fields.map (·.2)) (placeAround inner.length place) := ⟨moved.each, moved.related⟩
  refine ⟨placeAround inner.length place, PlacedAll.placed ?_ (fun _ _ apart => apart) ?_ ?_ ?_⟩
  · exact within
  · intro items same
    cases same
  · intro record same
    cases same
    exact ⟨rule, _, rfl, rfl, [], inner, [], rfl, rfl, balanced, rfl, rfl⟩
  · intro outer step path below same found
    obtain ⟨child, at_step, found⟩ := Option.bind_eq_some_iff.mp found
    obtain ⟨name, span, -, -, brackets⟩ := (all.each step child at_step).brackets path below found
    have bounds := brackets.exit_lt
    show 0 < (place (step :: path)).enter + 1 ∧ (place (step :: path)).exit + 1 < 0 + 1 + _
    omega

/-- The places once a child has got a new value, which the events behind the others show. -/
def placePut (place : List Nat → Stretch) (position number : Nat) (new : List Nat → Stretch) :
    List Nat → Stretch
  | [] => place []
  | step :: path => if step = position then (new path).shift number else place (step :: path)

/-- A child gets a new value, which is placed in the events behind those of the others. Where there
are children after it, what is related to them must be so in either order. -/
theorem PlacedAll.put {values' : List Value} {position : Nat}
    (all : PlacedAll related start events values place)
    (new : value.Placed (replayFrom start events) more place')
    (at_position : values'[position]? = some value)
    (others : ∀ step, step ≠ position → values'[step]? = values[step]?)
    (forth : ∀ stretch stretch', stretch.Before stretch' → related stretch stretch')
    (back : values.length ≤ position ∨
      ∀ stretch stretch', Stretch.Before stretch' stretch → related stretch stretch') :
    PlacedAll related start (events ++ more) values'
      (placePut place position events.length place') := by
  -- the old stretches end within the events, and the new ones begin behind them
  have old_new (step : Nat) (path path' : List Nat) (left : Value) (record record' : Record Value)
      (found : values[step]? = some left) (at_path : left.at? path = some (.record record))
      (at_path' : value.at? path' = some (.record record')) :
      (place (step :: path)).Before ((place' path').shift events.length) := by
    obtain ⟨rule, span, -, -, brackets⟩ := (all.each step left found).brackets path record at_path
    exact brackets.exit_lt.2.trans_le (Nat.le_add_left ..)
  constructor
  · intro step child found
    by_cases same : step = position
    · subst same
      cases found.symm.trans at_position
      simp only [placePut, if_true]
      exact new.behind events rfl
    · simp only [placePut, if_neg same]
      exact (all.each step child ((others step same).symm.trans found)).mono more
  · intro first second path path' left right record record' later found at_path found' at_path'
    by_cases same : first = position
    · subst same
      have other : second ≠ first := later.ne'
      simp only [placePut, if_true, if_neg other]
      rw [others second other] at found'
      cases found.symm.trans at_position
      rcases back with beyond | back
      · exact absurd (List.getElem?_eq_some_iff.mp found').1 (by omega)
      · exact back _ _ (old_new second path' path right record' record found' at_path' at_path)
    · rw [others first same] at found
      by_cases same' : second = position
      · subst same'
        simp only [placePut, if_true, if_neg same]
        cases found'.symm.trans at_position
        exact forth _ _ (old_new first path path' left record record' found at_path at_path')
      · rw [others second same'] at found'
        simp only [placePut, if_neg same, if_neg same']
        exact all.related first second path path' left right record record' later found at_path
          found' at_path'

/-- A record keeps the places of its fields when it gets one more value. -/
theorem PlacedAll.insert {fields : List (String × Value)}
    (all : PlacedAll Stretch.Apart start events (fields.map (·.2)) place) (name : String)
    (new : value.Placed (replayFrom start events) more place') :
    ∃ place, PlacedAll Stretch.Apart start (events ++ more)
      ((Record.insertField name value fields).map (·.2)) place := by
  obtain ⟨position, at_position, others⟩ : ∃ position : Nat,
      ((Record.insertField name value fields).map (·.2))[position]? = some value ∧
      ∀ step, step ≠ position → ((Record.insertField name value fields).map (·.2))[step]? =
        (fields.map (·.2))[step]? := by
    clear all
    induction fields with
    | nil => exact ⟨0, rfl, fun step other => by simp [Record.insertField, other]⟩
    | cons field fields ih =>
        by_cases same : field.1 = name
        · refine ⟨0, by simp [Record.insertField, same], fun step other => ?_⟩
          obtain ⟨step, rfl⟩ := Nat.exists_eq_succ_of_ne_zero other
          simp [Record.insertField, same]
        · obtain ⟨position, at_position, others⟩ := ih
          refine ⟨position + 1, by simpa [Record.insertField, same] using at_position,
            fun step other => ?_⟩
          cases step with
          | zero => simp [Record.insertField, same]
          | succ step =>
              simpa [Record.insertField, same] using others step fun eq => other (congrArg _ eq)
  exact ⟨_, all.put new at_position others (fun _ _ => .inl) (.inr fun _ _ => .inr)⟩

/-- A list keeps the places of its items when it gets one more. -/
theorem PlacedAll.snoc (all : PlacedAll Stretch.Before start events values place)
    (new : value.Placed (replayFrom start events) more place') :
    ∃ place, PlacedAll Stretch.Before start (events ++ more) (values ++ [value]) place := by
  have at_end : (values ++ [value])[values.length]? = some value := by simp
  refine ⟨_, all.put new at_end (fun step other => ?_) (fun _ _ before => before)
    (.inl (Nat.le_refl _))⟩
  rcases Nat.lt_or_gt_of_ne other with old | beyond
  · rw [List.getElem?_append_left old]
  · rw [List.getElem?_eq_none (Nat.le_of_lt beyond)]
    exact List.getElem?_eq_none (by simpa using beyond)

end

/-- The events of a derivation leave the cursor where its reply does. -/
theorem Traced.replayed {program : Program} {task : Task} {count count' : Nat} {context : Context}
    {events : List Event} {reply : Reply}
    (h : Traced program task count context events count' reply) :
    replayFrom context.offset events = reply.context.offset := by
  induction h with
  | literal_hit | class_hit => simp [Event.leaf, Event.offset?, Reply.context, Context.restore,
      Context.offset]
  | literal_miss | class_miss | unresolved | too_deep | empty | never | parts_empty
  | options_never => rfl
  | stringify_hit inner ih => rw [replay_from_append, ih, replay_from_shows]; rfl
  | optional_miss inner ih => simp [Event.offset?, Reply.context, Context.restore, Context.offset]
  | repeated items ih => rw [replay_from_append, replay_from_shows, ih]
  | call found below inner ih => rw [Reply.context_exitRule]; exact ih
  | append whole inner ih => rw [replay_from_append, replay_from_open_parts, ih]
  | tagged inner ih => simpa [Event.offset?] using ih
  | untagged inner ih => simpa [Event.offset?] using ih
  | located inner ih => simpa [Event.offset?] using ih
  | stringify_pass _ _ ih | optional_pass _ _ ih | orElse _ ih | parts_head _ _ ih
  | parts_stop _ _ ih | options_stop _ _ ih => exact ih
  | parts_next first second ih ih' =>
      rw [Reply.context_join, replay_from_append, ih]
      exact ih'
  | options_head whole inner ih =>
      rw [replay_from_cons, replay_from_append]
      exact ih ▸ replay_from_put_back _ _
  | options_next first second ih ih' =>
      rw [replay_from_append, ih, replay_from_cons, replay_from_append]
      exact ih' ▸ replay_from_put_back _ _
  | items_fault inner ih | items_stuck inner stuck ih =>
      rw [replay_from_cons]
      exact ih
  | items_end inner ih => simp [Event.offset?, Reply.context, Context.restore, Context.offset]
  | items_more first moves rest ih ih' =>
      rw [replay_from_cons, replay_from_append]
      exact (congrArg (replayFrom · _) ih).trans ih'

/-- What the events of a task say about the records of the value that it has. A sequence has its
fields placed, as it gets its own stretch from the rule around it only; further items of a
repetition are placed behind the earlier ones. -/
def Task.Places (labels : String → List String → Prop) (context : Context) (events : List Event)
    (value : Value) : Task → Prop
  | .expr subject _ =>
      (subject.Displays labels → ∃ place, value.Placed context.offset events place) ∧
        (subject.Sequences labels → ∃ fields place, value = .record { fields } ∧
          PlacedAll Stretch.Apart context.offset events (fields.map (·.2)) place)
  | .parts subject _ => subject.Sequences labels → ∃ fields place, value = .record { fields } ∧
      PlacedAll Stretch.Apart context.offset events (fields.map (·.2)) place
  | .options subject _ =>
      subject.Displays labels → ∃ place, value.Placed context.offset events place
  | .items _ body _ earlier => body.Displays labels → ∀ start before place,
      replayFrom start before = context.offset →
      PlacedAll Stretch.Before start before earlier.reverse place →
      ∃ place, value.Placed start (before ++ events) place

/-- A match tells by its events where the records of its value are from. -/
theorem Traced.placed {program : Program} {task : Task} {count count' : Nat} {context : Context}
    {events : List Event} {reply : Reply} {labels : String → List String → Prop}
    (displays : ∀ rule body, program.rules.resolve? rule = some body → body.Displays labels)
    (h : Traced program task count context events count' reply) {value : Value} {after : Context}
    (ended : reply = .ok (.matched value) after) : task.Places labels context events value := by
  have leaf {start : Nat} {events : List Event} {value : Value} (none_below : value.children = [])
      (no_record : ∀ record, value ≠ .record record) : ∃ place, value.Placed start events place :=
    ⟨fun _ => ⟨0, 0⟩, placed_leaf none_below no_record⟩
  induction h generalizing value after with
  | literal_hit eaten | class_hit eaten =>
      cases ended
      exact ⟨fun _ => leaf rfl (by simp), fun sequences => sequences.elim⟩
  | literal_miss | class_miss | never | options_never | unresolved | too_deep | items_fault
  | items_stuck => cases ended
  | stringify_hit inner ih =>
      cases ended
      exact ⟨fun _ => leaf rfl (by simp), fun sequences => sequences.elim⟩
  | stringify_pass inner missed ih =>
      subst ended
      cases missed
  | optional_pass inner hit ih => exact ⟨(ih ended).1, fun sequences => sequences.elim⟩
  | optional_miss inner ih =>
      cases ended
      exact ⟨fun _ => leaf rfl (by simp), fun sequences => sequences.elim⟩
  | repeated items ih =>
      refine ⟨fun display => ?_, fun sequences => sequences.elim⟩
      exact ih ended display _ _ (fun _ => ⟨0, 0⟩) (replay_from_shows ..) placed_all_nil
  | @call rule _ _ _ _ _ _ reply found below inner ih =>
      cases reply with
      | error fault middle => cases ended
      | ok outcome middle =>
          cases ended
          exact ⟨fun _ => (ih rfl).1 (displays rule _ found), fun sequences => sequences.elim⟩
  | empty =>
      cases ended
      exact ⟨fun display => display.elim, fun _ => ⟨[], fun _ => ⟨0, 0⟩, rfl, placed_all_nil⟩⟩
  | @append _ _ _ parts node count context events _ _ whole inner ih =>
      refine ⟨fun display => display.elim, fun sequences => ?_⟩
      obtain ⟨fields, place, rfl, all⟩ := ih ended sequences
      exact ⟨fields, _, rfl, all.behind _ (replay_from_open_parts node 0 count parts)⟩
  | orElse inner ih => exact ⟨ih ended, fun sequences => sequences.elim⟩
  | @tagged rule body node _ context events _ reply inner ih =>
      refine ⟨fun display => ?_, fun sequences => sequences.elim⟩
      rcases reply with ⟨item | captured, middle⟩ | ⟨fault, middle⟩
      · cases ended
        obtain ⟨fields, place, rfl, all⟩ := (ih rfl).2 display.1
        have balanced := (Balanced.shows node rule .record).append (inner.balanced rfl)
        have stop_eq : replayFrom context.offset (Event.shows node rule .record ++ events) =
            after.offset := inner.replayed
        have shown : PlacedAll Stretch.Apart context.offset
            (Event.shows node rule .record ++ events) (fields.map (·.2)) _ := all.behind _ rfl
        obtain ⟨place, placed⟩ := placed_rule balanced shown rule
        rw [stop_eq] at placed
        exact ⟨place, placed⟩
      · cases ended
      · cases ended
  | @untagged rule body node _ context events _ reply inner ih =>
      refine ⟨fun display => ?_, fun sequences => sequences.elim⟩
      obtain ⟨place, placed⟩ := (ih ended).1 display
      exact ⟨_, (placed.mono (Event.closeRule rule reply)).behind [.ruleEnter rule] rfl⟩
  | @located span body node _ context events _ reply inner ih =>
      refine ⟨fun display => ?_, fun sequences => sequences.elim⟩
      obtain ⟨place, placed⟩ := (ih ended).1 display
      exact ⟨_, placed.behind [.sourceSpan span] rfl⟩
  | parts_empty =>
      cases ended
      exact fun _ => ⟨[], fun _ => ⟨0, 0⟩, rfl, placed_all_nil⟩
  | parts_head whole inner ih => exact fun sequences => absurd whole sequences.parts_ne
  | parts_stop inner missed ih =>
      subst ended
      cases missed
  | @parts_next before field part nodes node _ context events _ content middle more _ reply first
      second ih ih' =>
      intro sequences
      rcases reply with ⟨item | captured, last⟩ | ⟨fault, last⟩
      · cases ended
        obtain ⟨fields, place, rfl, all⟩ := ih rfl sequences.1
        cases field with
        | none => exact ⟨fields, place, rfl, all.mono more⟩
        | some name =>
            obtain ⟨place', placed⟩ := (ih' rfl).1 sequences.2
            have middle_eq : replayFrom context.offset events = middle.offset := first.replayed
            obtain ⟨whole, inserted⟩ := all.insert name (middle_eq ▸ placed)
            exact ⟨_, whole, rfl, inserted⟩
      · cases ended
      · cases ended
  | @options_head subject node _ context events _ reply whole inner ih =>
      intro display
      rcases reply with ⟨item | captured, last⟩ | ⟨fault, last⟩
      · cases ended
        obtain ⟨place, placed⟩ := (ih rfl).1 display
        exact ⟨_, (placed.mono _).behind [.reset node] rfl⟩
      · cases ended
      · cases ended
  | options_stop inner hit ih => exact fun display => ih ended display.1
  | @options_next before alternative node _ context events _ captured middle more _ reply first
      second ih ih' =>
      intro display
      rcases reply with ⟨item | captured, last⟩ | ⟨fault, last⟩
      · cases ended
        obtain ⟨place, placed⟩ := (ih' rfl).1 display.2
        have behind_reset := (placed.mono (Event.putBack context.offset
          (.ok (.matched value) after))).behind [.reset node] rfl
        exact ⟨_, behind_reset.behind events first.replayed⟩
      · cases ended
      · cases ended
  | @items_end atLeastOne body node earlier _ context events _ captured middle inner ih =>
      intro display start before place replayed all
      have listed : value = .list earlier.reverse := by
        split at ended <;> cases ended
        rfl
      rw [listed]
      exact ⟨place, (placed_list all).mono _⟩
  | @items_more atLeastOne body node earlier count context events _ item middle more _ reply first
      moves rest ih ih' =>
      intro display start before place replayed all
      obtain ⟨place', placed⟩ := (ih rfl).1 display
      -- the item is placed behind the earlier ones, and the further ones behind it
      have attached : item.Placed context.offset
          (.attach node earlier.length (.afterCount count) :: events) _ :=
        placed.behind [.attach node earlier.length (.afterCount count)] rfl
      obtain ⟨place'', items⟩ := all.snoc (replayed ▸ attached)
      rw [← List.reverse_cons] at items
      have middle_eq : replayFrom start (before ++
          .attach node earlier.length (.afterCount count) :: events) = middle.offset := by
        rw [replay_from_append, replayed, replay_from_cons]
        exact first.replayed
      obtain ⟨whole, listed⟩ := ih' ended display start _ place'' middle_eq items
      rw [List.append_assoc] at listed
      exact ⟨whole, listed⟩

/-- The trace of a match tells which rule matched which range. Where direct matching of a compiled
grammar yields a value, a session returns events in which all records of the value have their
places: each has a stretch from the start of the rule that it is tagged with to the end of this
rule, and the cursor that the events before tell of is at the start of its span there, and at the
end of it here. The stretches lie inside each other as the records do, apart for records below
different fields, and in the order of the items of a list. -/
theorem extents_of_match {grammar : Grammar} {maxDepth : Nat} {program : Program}
    {start text : String} {value : Value} {offset : Nat}
    (compiled : grammar.compile maxDepth = .ok program)
    (ran : program.run start text = .ok (.matched value, offset)) :
    ∃ session events last place, program.session start text = .ok session ∧
      session.collect = (events, .ok last) ∧ value.Placed 0 events place := by
  obtain ⟨body, context, declared, replied, -⟩ := reply_of_run ran
  obtain ⟨events, allocated, last, traced, collected, -⟩ := collect_of_ok replied
  obtain ⟨place, placed⟩ := (traced.placed (grammar.displays_body compiled) rfl).1 trivial
  exact ⟨_, events, last, place, Session.of_declared declared, collected, placed⟩

/-- The word that stands in an item has its stretch inside the one of the item. -/
theorem extents_of_item : ∃ program session events last place,
    itemGrammar.compile 9 = .ok program ∧
      program.run "item" "ab?c!" = .ok (.matched itemValue, 5) ∧
      program.session "item" "ab?c!" = .ok session ∧ session.collect = (events, .ok last) ∧
      (place [1]).Inside (place []) ∧ itemValue.Placed 0 events place := by
  obtain ⟨program, compiled⟩ : ∃ program, itemGrammar.compile 9 = .ok program := ⟨_, rfl⟩
  have ran := run_item compiled
  obtain ⟨session, events, last, place, opened, collected, placed⟩ := extents_of_match compiled ran
  exact ⟨program, session, events, last, place, compiled, ran, opened, collected,
    placed.inside [] [1] _ _ rfl rfl (by simp), placed⟩

end TracedGrammar

import TracedGrammar.Proofs.Document.Spans
import TracedGrammar.Proofs.Trace.OpenRules
import TracedGrammar.Proofs.Trace.Places

/-!
# Which rule a place belongs to

A `sourceSpan` event tells of a place in the grammar text. In a program compiled from a grammar this
is the place of a part or of a case, and the rule that the part or the case stands in is the one
that is running: the innermost rule that is open.

A place may show after the rules that were called before it have opened and closed. `PlacesOwned`
says of some events that their places belong to the running rules, given the rules that are open
before them. `Traced.places_owned` says it of every match, if it can be seen from the syntax of the
rules (`Expr.PlacesOwned`). Which rule owns which place is a parameter up to there.

The theorem to read first is `place_of_running_rule`.
-/

namespace TracedGrammar

/-- Wherever the events tell of a place, the innermost open rule owns it. Open before the events are
the given rules, innermost first. -/
def PlacesOwned (owns : String → Span → Prop) (opened : List String) (events : List Event) : Prop :=
  ∀ earlier span, earlier ++ [.sourceSpan span] <+: events →
    ∃ rule outer, openAfter? opened earlier = some (rule :: outer) ∧ owns rule span

/-- An item of an append, with the items before it, is in the first list or in the second one. -/
theorem concat_prefix_append {α : Type} {earlier first second : List α} {item : α}
    (h : earlier ++ [item] <+: first ++ second) :
    earlier ++ [item] <+: first ∨ ∃ rest, earlier = first ++ rest ∧ rest ++ [item] <+: second := by
  rcases List.prefix_or_prefix_of_prefix h (List.prefix_append first second) with early | late
  · exact .inl early
  · rcases List.prefix_concat_iff.mp late with rfl | ⟨rest, rfl⟩
    · exact .inl (List.prefix_refl _)
    · rw [List.append_assoc, List.prefix_append_right_inj] at h
      exact .inr ⟨rest, rfl, h⟩

section

variable {owns : String → Span → Prop} {opened : List String} {events more : List Event}
  {event : Event} {rule : String}

theorem Event.no_place_of_silent (silent : Event.withoutPlaces events = events)
    (among : event ∈ events) : event.isPlace = false := by
  simpa using List.filter_eq_self.mp silent event among

namespace PlacesOwned

theorem of_silent (silent : Event.withoutPlaces events = events) :
    PlacesOwned owns opened events := by
  intro earlier span within
  have among := within.subset (List.mem_append_right earlier List.mem_cons_self)
  cases Event.no_place_of_silent silent among

/-- Events after which the open rules are those before them may come first. -/
theorem append (h : PlacesOwned owns opened events) (closed : Balanced events)
    (h' : PlacesOwned owns opened more) : PlacesOwned owns opened (events ++ more) := by
  intro earlier span within
  rcases concat_prefix_append within with early | ⟨rest, rfl, late⟩
  · exact h earlier span early
  · rw [open_after_append, closed.open_after]
    exact h' rest span late

/-- Events that tell of no place may come last, whichever rules they end. -/
theorem append_silent (h : PlacesOwned owns opened events)
    (silent : Event.withoutPlaces more = more) : PlacesOwned owns opened (events ++ more) := by
  intro earlier span within
  rcases concat_prefix_append within with early | ⟨rest, -, late⟩
  · exact h earlier span early
  · have among := late.subset (List.mem_append_right rest List.mem_cons_self)
    cases Event.no_place_of_silent silent among

theorem cons (plain : event.isBracket = false) (silent : event.isPlace = false)
    (rest : PlacesOwned owns opened events) : PlacesOwned owns opened (event :: events) :=
  (of_silent (Event.without_places_cons silent [])).append (.plain plain .nil) rest

theorem enter (h : PlacesOwned owns (rule :: opened) events) :
    PlacesOwned owns opened (.ruleEnter rule :: events) := by
  intro earlier span within
  cases earlier with
  | nil => cases (List.cons_prefix_cons.mp within).1
  | cons first earlier =>
      obtain ⟨rfl, shorter⟩ := List.cons_prefix_cons.mp within
      rw [open_after_enter]
      exact h earlier span shorter

theorem place {span : Span} (owned : ∃ rule ∈ opened.head?, owns rule span)
    (rest : PlacesOwned owns opened events) :
    PlacesOwned owns opened (.sourceSpan span :: events) := by
  intro earlier other within
  cases earlier with
  | nil =>
      obtain ⟨same, -⟩ := List.cons_prefix_cons.mp within
      cases same
      obtain ⟨rule, innermost, has⟩ := owned
      exact ⟨rule, opened.tail, congrArg some (List.cons_head?_tail innermost).symm, has⟩
  | cons first earlier =>
      obtain ⟨rfl, shorter⟩ := List.cons_prefix_cons.mp within
      rw [open_after_cons, Event.open_after_plain rfl]
      exact rest earlier other shorter

end PlacesOwned

end

/-- The places in an expression belong to the rule whose body they are in. Around the expression is
the given rule, if there is one. -/
def Expr.PlacesOwned (owns : String → Span → Prop) : Option String → Expr → Prop
  | _, literal _ | _, charClass _ | _, call _ | _, empty | _, never => True
  | around, stringify body | around, optional body | around, repeated _ body =>
      body.PlacesOwned owns around
  | around, append before _ part | around, orElse before part =>
      before.PlacesOwned owns around ∧ part.PlacesOwned owns around
  | _, tagged rule body | _, untagged rule body => body.PlacesOwned owns (some rule)
  | around, located span body =>
      (∃ rule ∈ around, owns rule span) ∧ body.PlacesOwned owns around

/-- The places in a task belong to the rule whose body they are in. -/
def Task.PlacesOwned (owns : String → Span → Prop) (around : Option String) : Task → Prop
  | expr subject _ | parts subject _ | options subject _ | items _ subject _ _ =>
      subject.PlacesOwned owns around

/-- The places in each rule of the program belong to the rule whose body they are in. -/
def Program.PlacesOwned (owns : String → Span → Prop) (program : Program) : Prop :=
  ∀ name body, program.rules.resolve? name = some body → ∀ around, body.PlacesOwned owns around

/-- The places that the events of a match tell of belong to the rules that are running. -/
theorem Traced.places_owned {program : Program} {owns : String → Span → Prop}
    (bodies : program.PlacesOwned owns) {task : Task} {count count' : Nat} {context : Context}
    {events : List Event} {reply : Reply}
    (h : Traced program task count context events count' reply) {opened : List String}
    (owned : task.PlacesOwned owns opened.head?) : PlacesOwned owns opened events := by
  induction h generalizing opened with
  | literal_hit | class_hit | literal_miss | class_miss | unresolved | too_deep | empty | never
  | parts_empty | options_never => exact .of_silent rfl
  | stringify_hit inner ih => exact (ih owned).append_silent rfl
  | optional_miss inner ih =>
      rw [List.append_assoc]
      exact (ih owned).append_silent rfl
  | stringify_pass _ _ ih | optional_pass _ _ ih | orElse _ ih | parts_head _ _ ih => exact ih owned
  | parts_stop _ _ ih | options_stop _ _ ih => exact ih owned.1
  | repeated items ih => exact (PlacesOwned.of_silent rfl).append (.shows ..) (ih owned)
  | call found below inner ih =>
      -- the rules around the call do not matter for the body of the rule that is called
      exact ih (bodies _ _ found _)
  | append whole inner ih =>
      refine PlacesOwned.append ?_ (.openParts ..) (ih owned)
      exact .of_silent (Event.without_places_openParts ..)
  | tagged inner ih =>
      refine .enter (.append_silent ?_ (Event.without_places_closeRule ..))
      exact (PlacesOwned.of_silent rfl).append (.shows ..) (ih owned)
  | untagged inner ih => exact ((ih owned).append_silent (Event.without_places_closeRule ..)).enter
  | located inner ih => exact (ih owned.2).place owned.1
  | parts_next first second ih ih' =>
      exact (ih owned.1).append (first.balanced rfl) (ih' owned.2)
  | options_head whole inner ih =>
      exact .cons rfl rfl ((ih owned).append_silent (Event.without_places_putBack ..))
  | options_next first second ih ih' =>
      refine (ih owned.1).append (first.balanced rfl) (.cons rfl rfl ?_)
      exact (ih' owned.2).append_silent (Event.without_places_putBack ..)
  | items_fault inner ih | items_stuck inner _ ih => exact .cons rfl rfl (ih owned)
  | items_end inner ih => exact .cons rfl rfl ((ih owned).append_silent rfl)
  | items_more first moves rest ih ih' =>
      exact .cons rfl rfl ((ih owned).append (first.balanced rfl) (ih' owned))

/-! ### Places of compiled rules -/

/-- The place that a trace tells of where a part is matched: that of the name for a reference. -/
def Part.place (part : Part) : Span :=
  match part.atom with
  | .reference target => target.span
  | .charClass .. | .literal .. => part.span

/-- The places of the parts or of the cases of a rule. -/
def Rule.places : Rule → List Span
  | sequence _ parts _ => parts.map Part.place
  | union _ cases _ => cases.map Ident.span

section

variable {owns : String → Span → Prop} {around : Option String}

namespace Expr

theorem places_owned_sequence {parts : List (Option String × Expr)}
    (owned : ∀ part ∈ parts, part.2.PlacesOwned owns around) :
    (sequence parts).PlacesOwned owns around :=
  List.foldlRecOn (motive := fun expr : Expr => expr.PlacesOwned owns around) parts _ trivial
    fun _ before part among => ⟨before, owned part among⟩

theorem places_owned_choice {alternatives : List Expr}
    (owned : ∀ alternative ∈ alternatives, alternative.PlacesOwned owns around) :
    (choice alternatives).PlacesOwned owns around :=
  List.foldlRecOn (motive := fun expr : Expr => expr.PlacesOwned owns around) alternatives _ trivial
    fun _ before alternative among => ⟨before, owned alternative among⟩

end Expr

theorem Part.places_owned_of_compile {part : Part} {named : Option String × Expr}
    (compiled : part.compileNamed = .ok named) (owned : ∃ rule ∈ around, owns rule part.place) :
    named.2.PlacesOwned owns around := by
  obtain ⟨expr, part_compiled, rfl⟩ := map_eq_ok_iff.mp compiled
  obtain ⟨core, atom_compiled, rfl⟩ := map_eq_ok_iff.mp part_compiled
  obtain ⟨field, stringify, atom, suffix, span⟩ := part
  have suffixed : (Suffix.wrap core suffix).PlacesOwned owns around =
      core.PlacesOwned owns around := by
    rcases suffix with _ | _ | _ | _ <;> rfl
  cases atom with
  | reference target =>
      cases atom_compiled
      have core_owned := suffixed.mpr ⟨owned, trivial⟩
      cases stringify <;> exact core_owned
  | literal quote chars place =>
      cases atom_compiled
      have core_owned := suffixed.mpr trivial
      cases stringify <;> exact ⟨owned, core_owned⟩
  | charClass inverted members place =>
      obtain ⟨set, -, rfl⟩ := map_eq_ok_iff.mp atom_compiled
      have core_owned := suffixed.mpr trivial
      cases stringify <;> exact ⟨owned, core_owned⟩

/-- The places in a compiled rule are those of its parts or cases. -/
theorem Rule.places_owned_of_compile {rule : Rule} {body : Expr}
    (compiled : rule.compile = .ok body) (owned : ∀ span ∈ rule.places, owns rule.name.name span) :
    body.PlacesOwned owns around := by
  cases rule with
  | union name cases span =>
      cases compiled
      refine Expr.places_owned_choice fun alternative among => ?_
      obtain ⟨target, of_rule, rfl⟩ := List.mem_map.mp among
      exact ⟨⟨name.name, rfl, owned _ (List.mem_map_of_mem of_rule)⟩, trivial⟩
  | sequence name parts span =>
      obtain ⟨converted, all, rfl⟩ := Grammar.compile_sequence compiled
      refine Expr.places_owned_sequence fun named among => ?_
      obtain ⟨part, of_rule, converts⟩ := Grammar.exists_part all among
      exact Part.places_owned_of_compile converts
        ⟨name.name, rfl, owned _ (List.mem_map_of_mem of_rule)⟩

end

/-- A rule of that name in the grammar has a part or a case at the place. -/
def Grammar.HasPlace (grammar : Grammar) (name : String) (span : Span) : Prop :=
  ∃ rule ∈ grammar.rules, rule.name.name = name ∧ span ∈ rule.places

theorem Grammar.places_owned_of_compile {grammar : Grammar} {maxDepth : Nat} {program : Program}
    (compiled : grammar.compile maxDepth = .ok program) : program.PlacesOwned grammar.HasPlace := by
  intro name body defined around
  obtain ⟨rule, found, rule_compiled⟩ := exists_rule compiled defined
  have declared := List.mem_of_find?_eq_some found
  exact Rule.places_owned_of_compile rule_compiled fun span among => ⟨rule, declared, rfl, among⟩

/-! ### Places in the grammar text -/

theorem Part.IsPlaced.covers_place {text : String} {part : Part} (h : part.IsPlaced text) :
    part.span.Covers [part.place] := by
  have atom_within := h.covers.of_mem (List.mem_append_right _ List.mem_cons_self)
  rw [Part.place]
  split
  · next target same => rwa [same] at atom_within
  all_goals exact ⟨Nat.le_refl _, h.covers.le, Nat.le_refl _⟩

theorem Rule.covers_places {text : String} {rule : Rule} (h : rule.IsPlaced text) {span : Span}
    (among : span ∈ rule.places) : rule.span.Covers [span] := by
  cases rule with
  | union name cases outer => exact h.1.of_mem (.tail _ among)
  | sequence name parts outer =>
      obtain ⟨part, of_rule, rfl⟩ := List.mem_map.mp among
      have part_within := h.1.of_mem (.tail _ (List.mem_map_of_mem of_rule))
      exact Span.Covers.trans part_within (h.2.2 part of_rule).covers_place

/-- A place in a trace belongs to the running rule. Where a session of a compiled grammar returns a
`sourceSpan`, some rule is open. The innermost one is a rule of the grammar, and the place is that
of one of its cases, of the name in one of its references, or of another one of its parts. If the
grammar was read from a text, the place lies within that of the rule. -/
theorem place_of_running_rule {grammar : Grammar} {maxDepth : Nat} {program : Program}
    {start text : String} {session : Session} (compiled : grammar.compile maxDepth = .ok program)
    (opened : program.session start text = .ok session) {steps : Nat} {earlier later : List Event}
    {span : Span} (split : session.returned steps = earlier ++ .sourceSpan span :: later) :
    ∃ outer, ∃ rule ∈ grammar.rules, Unclosed earlier (outer ++ [rule.name.name]) ∧
      span ∈ rule.places ∧
      ∀ source, Grammar.read source = .ok grammar → rule.span.Covers [span] := by
  cases Session.eq_opened opened
  obtain ⟨events, count, traced⟩ :=
    exists_traced program (.call start) .root 0 (Context.start text)
  have returned := (List.prefix_append _ _).trans (returned_of_traced traced steps)
  rw [split, List.append_cons] at returned
  have owned : PlacesOwned grammar.HasPlace [] events :=
    traced.places_owned (Grammar.places_owned_of_compile compiled) trivial
  obtain ⟨name, outer, now_open, rule, declared, rfl, among⟩ :=
    owned earlier span ((List.prefix_append _ _).trans returned)
  refine ⟨outer.reverse, rule, declared, ?_, among, fun source read => ?_⟩
  · rw [← List.reverse_cons]
    exact .of_open_after now_open
  · exact Rule.covers_places (Grammar.rules_placed_of_read read rule declared) among

/-- A part stands behind a reference to a rule whose first case fails. -/
def layeredText : String :=
  "a=b 'x';b:c d;c='z';d='y';"

/-- The grammar of the layered text. -/
def layeredGrammar : Grammar where
  rules :=
    [.sequence ⟨"a", ⟨0, 1⟩⟩
      [⟨none, false, .reference ⟨"b", ⟨2, 3⟩⟩, none, ⟨2, 4⟩⟩,
        ⟨none, false, .literal .single [⟨'x', false, ⟨5, 6⟩⟩] ⟨4, 7⟩, none, ⟨4, 7⟩⟩] ⟨0, 8⟩,
    .union ⟨"b", ⟨8, 9⟩⟩ [⟨"c", ⟨10, 11⟩⟩, ⟨"d", ⟨12, 13⟩⟩] ⟨8, 14⟩,
    .sequence ⟨"c", ⟨14, 15⟩⟩
      [⟨none, false, .literal .single [⟨'z', false, ⟨17, 18⟩⟩] ⟨16, 19⟩, none, ⟨16, 19⟩⟩] ⟨14, 20⟩,
    .sequence ⟨"d", ⟨20, 21⟩⟩
      [⟨none, false, .literal .single [⟨'y', false, ⟨23, 24⟩⟩] ⟨22, 25⟩, none, ⟨22, 25⟩⟩] ⟨20, 26⟩]
  span := ⟨0, 26⟩

/-- The literal of the first rule is tried after three other rules have begun and ended. Its place
is returned while the first rule is the only one open. -/
theorem place_of_layered : ∃ program session, Grammar.read layeredText = .ok layeredGrammar ∧
    layeredGrammar.compile 9 = .ok program ∧ program.session "a" "yx" = .ok session ∧
    session.returned 25 = session.returned 24 ++ [.sourceSpan ⟨4, 7⟩] ∧
    Unclosed (session.returned 24) ["a"] ∧
    ∃ rule ∈ layeredGrammar.rules, rule.name.name = "a" ∧ ⟨4, 7⟩ ∈ rule.places ∧
      rule.span.Covers [⟨4, 7⟩] := by
  have scanned : Grammar.scan.run (.start layeredText) = some (layeredGrammar, ⟨26, []⟩) := by cbv
  have read : Grammar.read layeredText = .ok layeredGrammar :=
    Grammar.read_of_scan (by decide) scanned rfl
  obtain ⟨program, session, compiled, opened, split, only⟩ : ∃ program session,
      layeredGrammar.compile 9 = .ok program ∧ program.session "a" "yx" = .ok session ∧
      session.returned 25 = session.returned 24 ++ [.sourceSpan ⟨4, 7⟩] ∧
      openAfter? [] (session.returned 24) = some ["a"] := by
    refine ⟨_, .opened _ "a" "yx", rfl, rfl, ?_, ?_⟩
    · cbv
    · cbv
  have unclosed : Unclosed (session.returned 24) ["a"] := .of_open_after only
  obtain ⟨outer, rule, declared, running, among, within⟩ :=
    place_of_running_rule compiled opened split
  have innermost : outer ++ [rule.name.name] = [] ++ ["a"] := running.unique unclosed
  exact ⟨program, session, read, compiled, opened, split, unclosed, rule, declared,
    (List.append_singleton_inj.mp innermost).2, among, within layeredText read⟩

end TracedGrammar

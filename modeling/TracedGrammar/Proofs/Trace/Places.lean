import TracedGrammar.Proofs.Trace.Agreement

/-!
# Places do not matter for matching

An expression may carry the ranges of the grammar text that its parts stand for. They only show as
`sourceSpan` events: without them an expression has the same reply at every context, and causes the
same other events (`Traced.unplaced`). So a program runs like the one without its places
(`Program.run_unplaced`), and traces like it but for those events (`Program.trace_unplaced`).

A sequence and a choice are taken apart by their syntax, up to the first place in it. The range
has to be that of an expression that is neither, as it is in compiled grammars.
-/

namespace TracedGrammar

namespace Expr

/-- The expression without places. -/
def unplaced : Expr → Expr
  | literal text => literal text
  | charClass set => charClass set
  | stringify body => stringify body.unplaced
  | optional body => optional body.unplaced
  | repeated atLeastOne body => repeated atLeastOne body.unplaced
  | call rule => call rule
  | empty => empty
  | append before field part => append before.unplaced field part.unplaced
  | never => never
  | orElse before alternative => orElse before.unplaced alternative.unplaced
  | tagged rule body => tagged rule body.unplaced
  | untagged rule body => untagged rule body.unplaced
  | located _ body => body.unplaced

/-- An expression that is its own only part and its own only alternative. -/
def IsUnit (expr : Expr) : Prop :=
  expr.parts = [(none, expr)] ∧ expr.alternatives = [expr]

/-- Only units have places. -/
def PlacesUnits : Expr → Prop
  | literal _ | charClass _ | call _ | empty | never => True
  | stringify body | optional body | repeated _ body | tagged _ body | untagged _ body =>
      body.PlacesUnits
  | append before _ part | orElse before part => before.PlacesUnits ∧ part.PlacesUnits
  | located _ body => body.unplaced.IsUnit ∧ body.PlacesUnits

variable {expr : Expr}

theorem parts_unplaced (h : expr.PlacesUnits) :
    expr.unplaced.parts = expr.parts.map fun part => (part.1, part.2.unplaced) := by
  induction expr with
  | append before field part ih _ => simp [unplaced, parts, ih h.1]
  | located span body _ => exact h.1.1
  | _ => rfl

theorem alternatives_unplaced (h : expr.PlacesUnits) :
    expr.unplaced.alternatives = expr.alternatives.map unplaced := by
  induction expr with
  | orElse before alternative ih _ => simp [unplaced, alternatives, ih h.1]
  | located span body _ => exact h.1.2
  | _ => rfl

end Expr

/-- The task without places. -/
def Task.unplaced : Task → Task
  | expr subject node => expr subject.unplaced node
  | parts subject nodes => parts subject.unplaced nodes
  | options subject node => options subject.unplaced node
  | items atLeastOne body node earlier => items atLeastOne body.unplaced node earlier

/-- Only units have places in the task. -/
def Task.PlacesUnits : Task → Prop
  | expr subject _ | parts subject _ | options subject _ | items _ subject _ _ =>
      subject.PlacesUnits

namespace Event

/-- Whether the event only tells of a place in the grammar text. -/
def isPlace : Event → Bool
  | sourceSpan _ => true
  | _ => false

/-- The events that do not tell of places. -/
def withoutPlaces (events : List Event) : List Event :=
  events.filter fun event => !event.isPlace

@[simp] theorem without_places_append (events more : List Event) :
    withoutPlaces (events ++ more) = withoutPlaces events ++ withoutPlaces more :=
  List.filter_append ..

theorem without_places_cons {event : Event} (h : event.isPlace = false) (events : List Event) :
    withoutPlaces (event :: events) = event :: withoutPlaces events := by
  simp [withoutPlaces, h]

@[simp] theorem without_places_closeRule (rule : String) (reply : Reply) :
    withoutPlaces (Event.closeRule rule reply) = Event.closeRule rule reply := by
  cases reply <;> rfl

@[simp] theorem without_places_putBack (start : Nat) (reply : Reply) :
    withoutPlaces (Event.putBack start reply) = Event.putBack start reply := by
  rw [Event.putBack]
  cases reply.isMiss <;> rfl

@[simp] theorem without_places_openParts (node : NodeId) (named count : Nat)
    (parts : List (Option String × Expr)) :
    withoutPlaces (Event.openParts node named count parts) =
      Event.openParts node named count parts := by
  fun_induction Event.openParts node named count parts with
  | case1 => rfl
  | case2 named count label expr parts ih =>
      rw [without_places_cons rfl, without_places_cons rfl, ih]
  | case3 named count expr parts ih => exact ih

/-- What the parts of a sequence show does not depend on their expressions. -/
theorem openParts_map (convert : Expr → Expr) (node : NodeId) (named count : Nat)
    (parts : List (Option String × Expr)) :
    Event.openParts node named count (parts.map fun part => (part.1, convert part.2)) =
      Event.openParts node named count parts := by
  fun_induction Event.openParts node named count parts with
  | case1 => rfl
  | case2 named count label expr parts ih => simp only [List.map_cons, Event.openParts, ih]
  | case3 named count expr parts ih => simp only [List.map_cons, Event.openParts, ih]

end Event

namespace Program

/-- The program without places. -/
def unplaced (program : Program) : Program :=
  { program with rules := ⟨program.rules.slots.map fun slot => (slot.1, slot.2.map Expr.unplaced)⟩ }

/-- Only units have places in the rules. -/
def PlacesUnits (program : Program) : Prop :=
  ∀ rule body, program.rules.resolve? rule = some body → body.PlacesUnits

theorem resolve_unplaced (program : Program) (rule : String) :
    program.unplaced.rules.resolve? rule = (program.rules.resolve? rule).map Expr.unplaced := by
  obtain ⟨⟨slots⟩, maxDepth⟩ := program
  simp only [unplaced, Registry.resolve?]
  induction slots with
  | nil => rfl
  | cons slot slots ih =>
      rw [List.map_cons, List.lookup_cons, List.lookup_cons]
      cases rule == slot.1 with
      | true => cases slot.2 <;> rfl
      | false => exact ih

end Program

open Event (withoutPlaces)

section

variable {program : Program} {task : Task} {count count' : Nat} {context : Context}
  {events : List Event} {reply : Reply}

/-- Without places a task has the same reply, and causes the same events but those that tell of
places. -/
theorem Traced.unplaced (placed : program.PlacesUnits)
    (h : Traced program task count context events count' reply) (units : task.PlacesUnits) :
    Traced program.unplaced task.unplaced count context (withoutPlaces events) count' reply := by
  induction h with
  | literal_hit eaten => exact .literal_hit eaten
  | literal_miss eaten => exact .literal_miss eaten
  | class_hit eaten => exact .class_hit eaten
  | class_miss eaten => exact .class_miss eaten
  | stringify_hit _ ih =>
      rw [Event.without_places_append]
      exact .stringify_hit (ih units)
  | stringify_pass _ missed ih => exact .stringify_pass (ih units) missed
  | optional_pass _ hit ih => exact .optional_pass (ih units) hit
  | optional_miss _ ih =>
      rw [Event.without_places_append, Event.without_places_append]
      exact .optional_miss (ih units)
  | repeated _ ih =>
      rw [Event.without_places_append]
      exact .repeated (ih units)
  | @unresolved rule node count context undefined =>
      have undefined' : program.unplaced.rules.resolve? rule = none := by
        rw [program.resolve_unplaced, undefined]
        rfl
      exact .unresolved undefined'
  | @too_deep rule body node count context resolved full =>
      have resolved' : program.unplaced.rules.resolve? rule = some body.unplaced := by
        rw [program.resolve_unplaced, resolved]
        rfl
      exact .too_deep resolved' full
  | @call rule body node count context events count' reply resolved below _ ih =>
      have resolved' : program.unplaced.rules.resolve? rule = some body.unplaced := by
        rw [program.resolve_unplaced, resolved]
        rfl
      exact .call resolved' below (ih (placed rule body resolved))
  | empty => exact .empty
  | @append before field part parts node count context events count' reply same _ ih =>
      have same' : (Expr.append before field part).unplaced.parts =
          parts.map fun part => (part.1, part.2.unplaced) := by
        rw [Expr.parts_unplaced units, same]
      have inner := ih units
      rw [← List.length_map (fun part : Option String × Expr => (part.1, part.2.unplaced))] at inner
      rw [Event.without_places_append, Event.without_places_openParts,
        ← Event.openParts_map Expr.unplaced]
      exact .append same' inner
  | never => exact .never
  | orElse _ ih => exact .orElse (ih units)
  | tagged _ ih =>
      rw [Event.without_places_cons rfl, Event.without_places_append, Event.without_places_append,
        Event.without_places_closeRule]
      exact .tagged (ih units)
  | untagged _ ih =>
      rw [Event.without_places_cons rfl, Event.without_places_append,
        Event.without_places_closeRule]
      exact .untagged (ih units)
  | located _ ih => exact ih units.2
  | parts_empty => exact .parts_empty
  | parts_head whole _ ih =>
      refine .parts_head ?_ (ih units)
      rw [Expr.parts_unplaced units, whole]
      rfl
  | parts_stop _ missed ih => exact .parts_stop (ih units.1) missed
  | parts_next _ _ ih ih' =>
      rw [Event.without_places_append]
      exact .parts_next (ih units.1) (ih' units.2)
  | options_never => exact .options_never
  | options_head whole _ ih =>
      rw [Event.without_places_cons rfl, Event.without_places_append,
        Event.without_places_putBack]
      refine .options_head ?_ (ih units)
      rw [Expr.alternatives_unplaced units, whole]
      rfl
  | options_stop _ hit ih => exact .options_stop (ih units.1) hit
  | options_next _ _ ih ih' =>
      rw [Event.without_places_append, Event.without_places_cons rfl,
        Event.without_places_append, Event.without_places_putBack]
      exact .options_next (ih units.1) (ih' units.2)
  | items_fault _ ih =>
      rw [Event.without_places_cons rfl]
      exact .items_fault (ih units)
  | items_end _ ih =>
      rw [Event.without_places_cons rfl, Event.without_places_append]
      exact .items_end (ih units)
  | items_stuck _ still ih =>
      rw [Event.without_places_cons rfl]
      exact .items_stuck (ih units) still
  | items_more _ moved _ ih ih' =>
      rw [Event.without_places_cons rfl, Event.without_places_append]
      exact .items_more (ih units) moved (ih' units)

end

/-- The trace without the events that tell of places. -/
def Trace.withoutPlaces (trace : Trace) : Trace :=
  { trace with events := Event.withoutPlaces trace.events }

namespace Program

section

variable {program : Program}

/-- A call has the same reply in a program without places. -/
theorem reply_unplaced (placed : program.PlacesUnits) (rule : String) (context : Context) :
    program.unplaced.reply (.call rule) context = program.reply (.call rule) context := by
  obtain ⟨events, count, traced⟩ := exists_traced program (.call rule) .root 0 context
  exact (traced.unplaced placed trivial).run_eq

/-- A program runs like the one without its places. -/
theorem run_unplaced (placed : program.PlacesUnits) (start text : String) :
    program.unplaced.run start text = program.run start text := by
  rw [run, run, reply_unplaced placed, resolve_unplaced]
  cases program.rules.resolve? start <;> rfl

theorem parse_unplaced (placed : program.PlacesUnits) (start text : String) :
    program.unplaced.parse start text = program.parse start text := by
  rw [parse, parse, run_unplaced placed]

/-- A session of the program without places hands out the same events but those that tell of places,
and comes to the same end. -/
theorem transcript_opened_unplaced (placed : program.PlacesUnits) (start text : String) :
    (Session.opened program.unplaced start text).transcript =
      Prod.map withoutPlaces id (Session.opened program start text).transcript := by
  obtain ⟨events, count, traced⟩ :=
    exists_traced program (.call start) .root 0 (Context.start text)
  rw [transcript_of_traced traced, transcript_of_traced (traced.unplaced placed trivial)]
  rfl

/-- Sessions of the program without places come to the same, but for the events that tell of
places. -/
theorem transcript_unplaced (placed : program.PlacesUnits) (start text : String) :
    (program.unplaced.session start text).map Session.transcript =
      (program.session start text).map (Prod.map withoutPlaces id ∘ Session.transcript) := by
  have declared' := program.resolve_unplaced start
  cases declared : program.rules.resolve? start with
  | none =>
      rw [declared] at declared'
      simp only [session, Session.start, declared, declared', Option.map_none, Except.map]
  | some body =>
      rw [declared] at declared'
      rw [Session.of_declared declared, Session.of_declared declared']
      exact congrArg Except.ok (transcript_opened_unplaced placed start text)

/-- The trace of a program without places is that of the program, without the events that tell of
places. -/
theorem trace_unplaced (placed : program.PlacesUnits) (start text : String) :
    program.unplaced.trace start text = (program.trace start text).map Trace.withoutPlaces := by
  have declared' := program.resolve_unplaced start
  cases declared : program.rules.resolve? start with
  | none =>
      rw [declared] at declared'
      simp only [trace, session, Session.start, declared, declared', Option.map_none, Except.map]
  | some body =>
      rw [declared] at declared'
      obtain ⟨events_eq, same⟩ := Prod.ext_iff.mp (transcript_opened_unplaced placed start text)
      simp only [Session.transcript, Prod.map_fst, Prod.map_snd, id_eq] at events_eq same
      simp only [trace, Session.of_declared declared, Session.of_declared declared', Session.finish]
      rcases found : (Session.opened program start text).collect with ⟨events, ended⟩
      rcases found' : (Session.opened program.unplaced start text).collect with ⟨events', ended'⟩
      rw [found, found'] at events_eq same
      subst events_eq
      cases ended with
      | error diagnostic =>
          cases ended' with
          | error diagnostic' => exact congrArg Except.error (Except.error.inj same)
          | ok last' => cases same
      | ok last =>
          cases ended' with
          | error diagnostic' => cases same
          | ok last' =>
              have verdict_eq : last'.verdict = last.verdict := Except.ok.inj same
              simp only [verdict_eq]
              cases last.verdict <;> rfl

end

end Program

end TracedGrammar

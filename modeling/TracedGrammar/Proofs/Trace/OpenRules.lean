import TracedGrammar.Proofs.Grammar.Compiled
import TracedGrammar.Proofs.Trace.Brackets
import TracedGrammar.Proofs.Trace.Rollback

/-!
# The rules that a session has open

A session keeps a stack of rules: it pushes a rule when it returns the start of it, and pops one
when it returns an end, whatever the name there. `Unclosed` says which rules some events leave open
without a stack. `openAfter?` does keep one, but comes to nothing at an end that is not the end of
the innermost open rule; `unclosed_iff` says that both agree.

The events of a match never come to nothing, wherever they are cut off. In addition the rules that
are open at once are bounded, by the rules that a rule can open before it calls another one, for
each call: `Traced.nests_within` says both. In a program compiled from a grammar a rule opens itself
only.

The theorem to read first is `call_stack_of_session`.
-/

namespace TracedGrammar

/-- The rules that start in the events and do not end in them, outermost first. -/
inductive Unclosed : List Event → List String → Prop where
  | none {events} (closed : Balanced events) : Unclosed events []
  | rule {before rule later rules} (closed : Balanced before) (rest : Unclosed later rules) :
      Unclosed (before ++ .ruleEnter rule :: later) (rule :: rules)

/-- The open rules after an event, innermost first, unless the event ends another rule than the
innermost one. -/
def Event.openAfter? (opened : List String) : Event → Option (List String)
  | ruleEnter rule => some (rule :: opened)
  | ruleExit rule => if opened.head? = some rule then some opened.tail else none
  | _ => some opened

/-- The open rules after some events, innermost first, unless one of them ends another rule than the
innermost one. -/
def openAfter? (opened : List String) (events : List Event) : Option (List String) :=
  events.foldlM Event.openAfter? opened

/-- The events end only rules that they start, each while it is the innermost one, and they have at
most `room` rules open at once. This holds wherever they are cut off. -/
structure NestsWithin (room : Nat) (events : List Event) : Prop where
  at_cut : ∀ opened earlier, earlier <+: events →
    ∃ inner, openAfter? opened earlier = some (inner ++ opened) ∧ inner.length ≤ room

section

variable {opened rules inner : List String} {events earlier more : List Event} {event : Event}
  {rule : String}

theorem Event.open_after_plain (plain : event.isBracket = false) :
    event.openAfter? opened = some opened := by
  cases event with
  | ruleEnter | ruleExit => cases plain
  | _ => rfl

theorem open_after_append :
    openAfter? opened (events ++ more) = (openAfter? opened events).bind (openAfter? · more) :=
  List.foldlM_append ..

theorem open_after_cons :
    openAfter? opened (event :: events) = (event.openAfter? opened).bind (openAfter? · events) :=
  List.foldlM_cons ..

theorem open_after_enter :
    openAfter? opened (.ruleEnter rule :: events) = openAfter? (rule :: opened) events :=
  open_after_cons

theorem open_after_exit :
    openAfter? (rule :: opened) (.ruleExit rule :: events) = openAfter? opened events := by
  rw [open_after_cons, Event.openAfter?, if_pos List.head?_cons]
  rfl

theorem Balanced.open_after (h : Balanced events) (opened : List String) :
    openAfter? opened events = some opened := by
  induction h generalizing opened with
  | nil => rfl
  | plain plain _ ih =>
      rw [open_after_cons, Event.open_after_plain plain]
      exact ih opened
  | rule _ _ within after =>
      rw [open_after_enter, open_after_append, within, Option.bind_some, open_after_exit]
      exact after opened

namespace Unclosed

theorem append {rules' : List String} (h : Unclosed events rules) (h' : Unclosed more rules') :
    Unclosed (events ++ more) (rules ++ rules') := by
  induction h with
  | none closed =>
      cases h' with
      | none closed' => exact .none (closed.append closed')
      | rule closed' rest =>
          rw [← List.append_assoc]
          exact .rule (closed.append closed') rest
  | rule closed _ ih =>
      rw [List.append_assoc, List.cons_append]
      exact .rule closed ih

/-- The end of the innermost open rule closes it. -/
theorem exit (h : Unclosed events (rules ++ [rule])) :
    Unclosed (events ++ [.ruleExit rule]) rules := by
  induction rules generalizing events with
  | nil =>
      obtain _ | ⟨closed, rest⟩ := h
      cases rest with
      | none closed' =>
          rw [List.append_assoc, List.cons_append]
          exact .none (closed.append (closed'.closed rule))
  | cons outer rules ih =>
      obtain _ | ⟨closed, rest⟩ := h
      rw [List.append_assoc, List.cons_append]
      exact .rule closed (ih rest)

theorem open_after (h : Unclosed events rules) (opened : List String) :
    openAfter? opened events = some (rules.reverse ++ opened) := by
  induction h generalizing opened with
  | none closed => exact closed.open_after opened
  | rule closed _ ih =>
      rw [open_after_append, closed.open_after, Option.bind_some, open_after_enter, ih,
        List.reverse_cons, List.append_assoc, List.singleton_append]

theorem of_open_after (h : openAfter? [] events = some opened) :
    Unclosed events opened.reverse := by
  -- the open rules are read from the front, so the last event is what the induction takes away
  induction events using List.reverseRecOn generalizing opened with
  | nil =>
      cases h
      exact .none .nil
  | append_singleton events event ih =>
      rw [open_after_append] at h
      obtain ⟨middle, before, last⟩ := Option.bind_eq_some_iff.mp h
      rw [open_after_cons] at last
      obtain ⟨_, stepped, ⟨⟩⟩ := Option.bind_eq_some_iff.mp last
      cases event with
      | ruleEnter rule =>
          cases stepped
          rw [List.reverse_cons]
          exact (ih before).append (.rule .nil (.none .nil))
      | ruleExit rule =>
          obtain ⟨innermost, ⟨⟩⟩ := Option.ite_none_right_eq_some.mp stepped
          cases middle with
          | nil => cases innermost
          | cons top outer =>
              cases innermost
              have now := ih before
              rw [List.reverse_cons] at now
              exact now.exit
      | _ =>
          cases stepped
          simpa using (ih before).append (.none (.plain rfl .nil))

end Unclosed

/-- Keeping a stack of the open rules finds those that are not closed. -/
theorem unclosed_iff : Unclosed events rules ↔ openAfter? [] events = some rules.reverse := by
  constructor
  · intro h
    rw [h.open_after, List.append_nil]
  · intro h
    rw [← rules.reverse_reverse]
    exact .of_open_after h

instance : Decidable (Unclosed events rules) :=
  decidable_of_iff _ unclosed_iff.symm

example : Unclosed [.ruleEnter "item", .ruleEnter "word", .ruleExit "word"] ["item"] := by decide

namespace Unclosed

theorem unique {rules' : List String} (h : Unclosed events rules) (h' : Unclosed events rules') :
    rules = rules' :=
  List.reverse_injective (Option.some.inj ((unclosed_iff.mp h).symm.trans (unclosed_iff.mp h')))

/-- A rule that ends was the innermost open one. -/
theorem before_exit (h : Unclosed (events ++ .ruleExit rule :: more) rules) :
    ∃ outer, Unclosed events (outer ++ [rule]) := by
  rw [unclosed_iff, open_after_append] at h
  obtain ⟨middle, before, last⟩ := Option.bind_eq_some_iff.mp h
  rw [open_after_cons] at last
  obtain ⟨_, stepped, -⟩ := Option.bind_eq_some_iff.mp last
  obtain ⟨innermost, -⟩ := Option.ite_none_right_eq_some.mp stepped
  refine ⟨middle.tail.reverse, ?_⟩
  rw [← List.reverse_cons, List.cons_head?_tail innermost]
  exact .of_open_after before

end Unclosed

namespace NestsWithin

variable {room total : Nat}

theorem nil : NestsWithin room [] := by
  constructor
  intro opened earlier within
  cases List.prefix_nil.mp within
  exact ⟨[], rfl, Nat.zero_le room⟩

theorem plain (plain : event.isBracket = false) (rest : NestsWithin room events) :
    NestsWithin room (event :: events) := by
  constructor
  intro opened earlier within
  cases earlier with
  | nil => exact ⟨[], rfl, Nat.zero_le room⟩
  | cons first earlier =>
      obtain ⟨rfl, shorter⟩ := List.cons_prefix_cons.mp within
      rw [open_after_cons, Event.open_after_plain plain]
      exact rest.at_cut opened earlier shorter

theorem of_plain (plain : ∀ event ∈ events, event.isBracket = false) :
    NestsWithin room events := by
  induction events with
  | nil => exact nil
  | cons event events ih =>
      have rest := ih fun other among => plain other (.tail _ among)
      exact rest.plain (plain event List.mem_cons_self)

/-- Events after which no rule is open leave all of the room to those that follow. -/
theorem append (h : NestsWithin room events) (closed : Balanced events)
    (h' : NestsWithin room more) : NestsWithin room (events ++ more) := by
  constructor
  intro opened earlier within
  rcases List.prefix_or_prefix_of_prefix within (List.prefix_append events more) with
    early | ⟨rest, rfl⟩
  · exact h.at_cut opened earlier early
  · rw [open_after_append, closed.open_after]
    exact h'.at_cut opened rest ((List.prefix_append_right_inj events).mp within)

/-- The start of a rule takes one place of the room. -/
theorem enter (h : NestsWithin room events) (larger : room < total) :
    NestsWithin total (.ruleEnter rule :: events) := by
  constructor
  intro opened earlier within
  cases earlier with
  | nil => exact ⟨[], rfl, Nat.zero_le _⟩
  | cons first earlier =>
      obtain ⟨rfl, shorter⟩ := List.cons_prefix_cons.mp within
      obtain ⟨inner, read, bounded⟩ := h.at_cut (rule :: opened) earlier shorter
      refine ⟨inner ++ [rule], ?_, ?_⟩
      · rw [open_after_enter, read, List.append_assoc, List.singleton_append]
      · rw [List.length_append, List.length_singleton]
        exact Nat.lt_of_le_of_lt bounded larger

/-- The events of a rule with its body, or up to a fault in the body. -/
theorem close_rule (h : NestsWithin room events) {reply : Reply}
    (ended : ∀ outcome after, reply = .ok outcome after → Balanced events)
    (larger : room < total) :
    NestsWithin total (.ruleEnter rule :: (events ++ Event.closeRule rule reply)) := by
  cases reply with
  | error fault after =>
      rw [Event.closeRule, List.append_nil]
      exact h.enter larger
  | ok outcome after =>
      constructor
      intro opened earlier within
      rw [Event.closeRule, ← List.cons_append] at within
      rcases List.prefix_concat_iff.mp within with rfl | early
      · have whole := (ended outcome after rfl).closed rule
        exact ⟨[], whole.open_after opened, Nat.zero_le _⟩
      · exact (h.enter larger).at_cut opened earlier early

theorem shows (node : NodeId) (text : String) (kind : NodeKind) :
    NestsWithin room (Event.shows node text kind) :=
  of_plain (by simp [Event.shows, Event.isBracket])

theorem leaf (node : NodeId) (text : String) (after : Cursor) :
    NestsWithin room (Event.leaf node text after) :=
  (shows ..).append (.shows ..) (of_plain (by simp [Event.isBracket]))

/-- The events of an alternative of a choice, with those after it. -/
theorem put_back (h : NestsWithin room events) (start : Nat) {reply : Reply}
    (ended : ∀ outcome after, reply = .ok outcome after → Balanced events) :
    NestsWithin room (events ++ Event.putBack start reply) := by
  cases reply with
  | error fault after =>
      rw [show Event.putBack start (.error fault after) = [] from rfl, List.append_nil]
      exact h
  | ok outcome after =>
      refine h.append (ended outcome after rfl) ?_
      unfold Event.putBack
      split
      · exact .plain rfl .nil
      · exact .nil

theorem open_parts (node : NodeId) (named count : Nat) (parts : List (Option String × Expr)) :
    NestsWithin room (Event.openParts node named count parts) :=
  of_plain (Event.plain_openParts node named count parts)

end NestsWithin

end

/-- The number of rules that an expression has open at once, without those of the rules it calls. -/
def Expr.nesting : Expr → Nat
  | literal _ | charClass _ | call _ | empty | never => 0
  | stringify body | optional body | repeated _ body | located _ body => body.nesting
  | append before _ part | orElse before part => max before.nesting part.nesting
  | tagged _ body | untagged _ body => body.nesting + 1

/-- The number of rules that a task has open at once, without those of the rules it calls. -/
def Task.nesting : Task → Nat
  | expr subject _ | parts subject _ | options subject _ | items _ subject _ _ => subject.nesting

/-- No rule has more than `width` rules open, without those of the rules it calls. -/
def Program.OpensAtMost (program : Program) (width : Nat) : Prop :=
  ∀ name body, program.rules.resolve? name = some body → body.nesting ≤ width

/-- A program has finitely many rules, so that some number bounds what each has open. -/
theorem Program.exists_width (program : Program) : ∃ width, program.OpensAtMost width := by
  obtain ⟨⟨slots⟩, maxDepth⟩ := program
  suffices ∃ width, ∀ name body, (slots.lookup name).join = some body → body.nesting ≤ width from
    this
  induction slots with
  | nil => exact ⟨0, fun name body defined => by cases defined⟩
  | cons slot slots ih =>
      obtain ⟨name, definition⟩ := slot
      obtain ⟨width, narrow⟩ := ih
      refine ⟨max (definition.elim 0 Expr.nesting) width, fun other body defined => ?_⟩
      rw [List.lookup_cons] at defined
      split at defined
      · cases show definition = some body from defined
        exact Nat.le_max_left _ _
      · exact (narrow other body defined).trans (Nat.le_max_right _ _)

/-- The events of a task nest. Open at once are no more rules than the task has on its own and each
call that is left can open. -/
theorem Traced.nests_within {program : Program} {width : Nat} (narrow : program.OpensAtMost width)
    {task : Task} {count count' : Nat} {context : Context} {events : List Event} {reply : Reply}
    (h : Traced program task count context events count' reply) {room : Nat}
    (enough : task.nesting + width * (program.maxDepth - context.depth) ≤ room) :
    NestsWithin room events := by
  induction h generalizing room with
  | literal_hit | class_hit => exact .leaf ..
  | literal_miss | class_miss | unresolved | too_deep | empty | never | parts_empty
  | options_never => exact .nil
  | stringify_hit inner ih => exact (ih enough).append (inner.balanced rfl) (.shows ..)
  | optional_miss inner ih =>
      rw [List.append_assoc]
      exact (ih enough).append (inner.balanced rfl) (.plain rfl (.plain rfl (.shows ..)))
  | stringify_pass _ _ ih | optional_pass _ _ ih | orElse _ ih | parts_head _ _ ih =>
      exact ih enough
  | parts_stop _ _ ih | options_stop _ _ ih =>
      exact ih ((Nat.add_le_add_right (Nat.le_max_left _ _) _).trans enough)
  | repeated items ih => exact (NestsWithin.shows ..).append (.shows ..) (ih enough)
  | @call rule body _ _ context _ _ _ found below inner ih =>
      -- a level less is left to the body, which frees the room that it takes itself
      apply ih
      have levels : program.maxDepth - context.depth =
          program.maxDepth - (context.depth + 1) + 1 := by omega
      rw [levels, Nat.mul_succ] at enough
      have body_le := narrow rule body found
      simp only [Task.nesting, Expr.nesting] at enough ⊢
      omega
  | append whole inner ih => exact (NestsWithin.open_parts ..).append (.openParts ..) (ih enough)
  | tagged inner ih =>
      refine ((NestsWithin.shows ..).append (.shows ..) (ih le_rfl)).close_rule ?_ ?_
      · intro outcome after ended
        exact (Balanced.shows ..).append (inner.balanced ended)
      · simp only [Task.nesting, Expr.nesting] at enough ⊢
        omega
  | untagged inner ih =>
      refine (ih le_rfl).close_rule (fun outcome after => inner.balanced) ?_
      simp only [Task.nesting, Expr.nesting] at enough ⊢
      omega
  | located inner ih => exact .plain rfl (ih enough)
  | @parts_next before _ part _ _ _ context _ _ _ middle _ _ _ first second ih ih' =>
      have same_depth : middle.depth = context.depth := first.depth_eq
      refine (ih ?_).append (first.balanced rfl) (ih' ?_)
      · exact (Nat.add_le_add_right (Nat.le_max_left _ _) _).trans enough
      · rw [same_depth]
        exact (Nat.add_le_add_right (Nat.le_max_right _ _) _).trans enough
  | options_head whole inner ih =>
      exact .plain rfl ((ih enough).put_back _ fun outcome after => inner.balanced)
  | @options_next before alternative _ _ context _ _ _ middle _ _ _ first second ih ih' =>
      have same_depth : middle.depth = context.depth := first.depth_eq
      refine (ih ?_).append (first.balanced rfl)
        (.plain rfl ((ih' ?_).put_back _ fun outcome after => second.balanced))
      · exact (Nat.add_le_add_right (Nat.le_max_left _ _) _).trans enough
      · rw [same_depth]
        exact (Nat.add_le_add_right (Nat.le_max_right _ _) _).trans enough
  | items_fault inner ih | items_stuck inner _ ih => exact .plain rfl (ih enough)
  | items_end inner ih =>
      exact .plain rfl ((ih enough).append (inner.balanced rfl) (.plain rfl (.plain rfl .nil)))
  | @items_more _ _ _ _ _ context _ _ _ middle _ _ _ first moves rest ih ih' =>
      have same_depth : middle.depth = context.depth := first.depth_eq
      refine .plain rfl ((ih enough).append (first.balanced rfl) (ih' ?_))
      rw [same_depth]
      exact enough

namespace Session

variable {session : Session} {opened : List String}

/-- A step keeps the open rules as the event that it returns says. -/
theorem open_rules_step
    (read : openAfter? session.openRules.toList.reverse (event? session.step.1).toList =
      some opened) :
    session.step.2.openRules.toList.reverse = opened := by
  fun_induction Session.step session with
  | case1 session event outbox queued =>
      rw [event?, Option.toList_some, open_after_cons] at read
      obtain ⟨_, stepped, ⟨⟩⟩ := Option.bind_eq_some_iff.mp read
      cases event with
      | ruleEnter rule =>
          cases stepped
          simp [track]
      | ruleExit rule =>
          obtain ⟨-, ⟨⟩⟩ := Option.ite_none_right_eq_some.mp stepped
          simp [track]
      | _ =>
          cases stepped
          rfl
  | case2 | case3 | case4 =>
      cases read
      rfl
  | case5 session _ _ frame stack left machine done ih => exact ih read

/-- The open rules of a session are those that the events it returned leave open. -/
theorem open_rules_after (nothing_open : session.openRules = #[]) {steps : Nat}
    (read : openAfter? [] (session.returned steps) = some opened) :
    (session.after steps).openRules.toList.reverse = opened := by
  induction steps generalizing opened with
  | zero =>
      cases read
      rw [after, nothing_open]
      rfl
  | succ steps ih =>
      rw [returned, open_after_append] at read
      obtain ⟨middle, before, last⟩ := Option.bind_eq_some_iff.mp read
      rw [← ih before] at last
      exact open_rules_step last

end Session

namespace Expr

theorem nesting_sequence {parts : List (Option String × Expr)}
    (flat : ∀ part ∈ parts, part.2.nesting = 0) : (sequence parts).nesting = 0 :=
  List.foldlRecOn (motive := fun expr : Expr => expr.nesting = 0) parts _ rfl
    fun _ before part among => Nat.max_eq_zero_iff.mpr ⟨before, flat part among⟩

theorem nesting_choice {alternatives : List Expr}
    (flat : ∀ alternative ∈ alternatives, alternative.nesting = 0) :
    (choice alternatives).nesting = 0 :=
  List.foldlRecOn (motive := fun expr : Expr => expr.nesting = 0) alternatives _ rfl
    fun _ before alternative among => Nat.max_eq_zero_iff.mpr ⟨before, flat alternative among⟩

end Expr

theorem Atom.nesting_of_compile {atom : Atom} {core : Expr} (compiled : atom.compile = .ok core) :
    core.nesting = 0 := by
  cases atom with
  | reference | literal =>
      cases compiled
      rfl
  | charClass inverted members span =>
      obtain ⟨set, -, rfl⟩ := map_eq_ok_iff.mp compiled
      rfl

theorem Part.nesting_wrap (part : Part) (core : Expr) :
    (part.wrap core).nesting = core.nesting := by
  obtain ⟨field, stringify, atom, suffix, span⟩ := part
  have suffixed : (Suffix.wrap core suffix).nesting = core.nesting := by
    rcases suffix with _ | _ | _ | _ <;> rfl
  cases atom <;> cases stringify <;> exact suffixed

/-- A rule of a grammar opens itself, and leaves all others to calls. -/
theorem Rule.nesting_of_compile {rule : Rule} {body : Expr} (compiled : rule.compile = .ok body) :
    body.nesting = 1 := by
  cases rule with
  | union name cases span =>
      cases compiled
      refine congrArg (· + 1) (Expr.nesting_choice fun alternative among => ?_)
      obtain ⟨target, -, rfl⟩ := List.mem_map.mp among
      rfl
  | sequence name parts span =>
      obtain ⟨converted, all, rfl⟩ := Grammar.compile_sequence compiled
      refine congrArg (· + 1) (Expr.nesting_sequence fun named among => ?_)
      obtain ⟨part, -, converts⟩ := Grammar.exists_part all among
      obtain ⟨expr, part_compiled, rfl⟩ := map_eq_ok_iff.mp converts
      obtain ⟨core, atom_compiled, rfl⟩ := map_eq_ok_iff.mp part_compiled
      exact (part.nesting_wrap core).trans (Atom.nesting_of_compile atom_compiled)

theorem Grammar.opens_at_most_one {grammar : Grammar} {maxDepth : Nat} {program : Program}
    (compiled : grammar.compile maxDepth = .ok program) : program.OpensAtMost 1 := by
  intro name body defined
  obtain ⟨rule, -, rule_compiled⟩ := exists_rule compiled defined
  exact Nat.le_of_eq (Rule.nesting_of_compile rule_compiled)

section

variable {program : Program} {start text : String} {session : Session}

/-- The events that a session has returned nest. -/
theorem Session.returned_nests {width : Nat} (narrow : program.OpensAtMost width) (steps : Nat) :
    NestsWithin (width * program.maxDepth) ((opened program start text).returned steps) := by
  obtain ⟨events, count, traced⟩ :=
    exists_traced program (.call start) .root 0 (Context.start text)
  have nests := traced.nests_within narrow (Nat.le_of_eq (Nat.zero_add _))
  constructor
  intro opened earlier within
  have early := (List.prefix_append _ _).trans (returned_of_traced traced steps)
  exact nests.at_cut opened earlier (within.trans early)

/-- The events that a session has returned leave its open rules unclosed. -/
theorem Session.unclosed_returned (opened : program.session start text = .ok session)
    (steps : Nat) :
    Unclosed (session.returned steps) (session.after steps).openRules.toList := by
  cases eq_opened opened
  obtain ⟨width, narrow⟩ := program.exists_width
  obtain ⟨inner, read, -⟩ :=
    (returned_nests narrow steps).at_cut [] _ (List.prefix_refl _)
  rw [List.append_nil] at read
  rw [unclosed_iff, read, open_rules_after rfl read]

/-- A session with a verdict has returned all events of a match that came to its end. -/
theorem Session.balanced_of_verdict (opened : program.session start text = .ok session)
    {steps : Nat} {verdict : Verdict} (judged : (session.after steps).verdict = some verdict) :
    Balanced (session.returned steps) := by
  cases eq_opened opened
  obtain ⟨events, count, traced, ends⟩ := exists_ends program start text
  have stage := stage_after (running_opened program start text) steps
  have concluded := stage.concluded_of_verdict judged
  have program_eq := ((Session.opened program start text).after_same steps).1
  cases replied : program.reply (.call start) (.start text) with
  | error fault context =>
      rw [replied] at ends
      obtain ⟨last, reached, faults, -⟩ := ends
      exact absurd (by rw [program_eq]; exact faults)
        (concluded.not_faults (by rw [program_eq]; exact reached))
  | ok outcome context =>
      rw [replied] at ends traced
      have same := concluded.machine_eq (by rw [program_eq]; exact ends) rfl
      have queues := congrArg Machine.outbox same
      rw [Machine.preceded, concluded.outbox_eq, List.append_nil] at queues
      rw [show (Session.opened program start text).returned steps = events from queues]
      exact traced.balanced rfl

/-- The call stack of a session is true. After any number of steps, the rules that the session has
open are those that the events returned so far leave unclosed, outermost first, and there is no
other list of which this can be said. Each `ruleExit` among these events is that of the innermost
rule open before it. Once the session has a verdict no rule is open. If the program was compiled
from a grammar, no more rules are open than calls may be nested. -/
theorem call_stack_of_session (opened : program.session start text = .ok session) (steps : Nat) :
    (∀ rules, Unclosed (session.returned steps) rules ↔
      rules = (session.after steps).openRules.toList) ∧
    (∀ earlier rule later, session.returned steps = earlier ++ .ruleExit rule :: later →
      ∃ outer, Unclosed earlier (outer ++ [rule])) ∧
    (∀ verdict, (session.after steps).verdict = some verdict →
      (session.after steps).openRules = #[]) ∧
    ∀ (grammar : Grammar) maxDepth, grammar.compile maxDepth = .ok program →
      (session.after steps).openRules.size ≤ maxDepth := by
  have returned := Session.unclosed_returned opened steps
  refine ⟨fun rules => ⟨fun unclosed => unclosed.unique returned, fun same => same ▸ returned⟩,
    ?_, ?_, ?_⟩
  · intro earlier rule later split
    rw [split] at returned
    exact returned.before_exit
  · intro verdict judged
    have closed := Session.balanced_of_verdict opened judged
    exact Array.toList_eq_nil_iff.mp (returned.unique (.none closed))
  · intro grammar maxDepth compiled
    have narrow := Grammar.opens_at_most_one compiled
    cases Session.eq_opened opened
    obtain ⟨inner, read, bounded⟩ :=
      (Session.returned_nests narrow steps).at_cut [] _ (List.prefix_refl _)
    rw [List.append_nil, unclosed_iff.mp returned] at read
    cases read
    rwa [List.length_reverse, Nat.one_mul, Grammar.max_depth_compiled compiled] at bounded

/-- Behind the question mark of an item the rule of another one has begun, with its first case. In
the end all rules are closed. -/
theorem call_stack_of_item : ∃ program session, itemGrammar.compile 9 = .ok program ∧
    program.session "item" "?c!" = .ok session ∧
    (session.after 40).openRules = #["item", "query", "item", "word"] ∧
    Unclosed (session.returned 40) ["item", "query", "item", "word"] ∧
    (session.after 40).openRules.size ≤ 9 ∧
    (session.after 65).verdict = some (.accepted 3) ∧ (session.after 65).openRules = #[] := by
  obtain ⟨program, session, compiled, opened, stack, judged⟩ : ∃ program session,
      itemGrammar.compile 9 = .ok program ∧ program.session "item" "?c!" = .ok session ∧
      (session.after 40).openRules = #["item", "query", "item", "word"] ∧
      (session.after 65).verdict = some (.accepted 3) := by
    refine ⟨_, .opened _ "item" "?c!", rfl, rfl, ?_, ?_⟩
    · cbv
    · cbv
  obtain ⟨unclosed, -, -, bounded⟩ := call_stack_of_session opened 40
  obtain ⟨-, -, closed, -⟩ := call_stack_of_session opened 65
  exact ⟨program, session, compiled, opened, stack, (unclosed _).mpr (by rw [stack]),
    bounded itemGrammar 9 compiled, judged, closed _ judged⟩

end

end TracedGrammar

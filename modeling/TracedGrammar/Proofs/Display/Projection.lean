import TracedGrammar.Proofs.Display.Faithful
import TracedGrammar.Proofs.Grammar.Compiled
import TracedGrammar.Proofs.Trace.Agreement

/-!
# The display tree of a match

A session that steps through a match of a compiled grammar returns events from which
`NodeTree.replay` builds a tree. Where direct matching yields a value, the root of this tree shows
the same value, with the spans of the records left out.

The theorem to read first is `display_of_match`.
-/

namespace TracedGrammar

/-- The fields of a record are the named parts of the rule whose name it has, in order. -/
def Grammar.Labels (grammar : Grammar) (name : String) (names : List String) : Prop :=
  ∃ ident parts span, grammar.rule? name = some (.sequence ident parts span) ∧
    names = parts.filterMap (·.field.map (·.name))

section

variable {labels : String → List String → Prop}

theorem Suffix.displays_wrap {expr : Expr} (h : expr.Displays labels) (suffix : Option Suffix) :
    (Suffix.wrap expr suffix).Displays labels := by
  rcases suffix with - | - | - | - <;> exact h

theorem Part.displays_compile {part : Part} {expr : Expr} (h : part.compile = .ok expr) :
    expr.Displays labels := by
  obtain ⟨core, compiled, rfl⟩ := map_eq_ok_iff.mp h
  have core_displays : core.Displays labels := by
    cases atom : part.atom with
    | reference target =>
        rw [atom] at compiled
        cases compiled
        exact trivial
    | literal quote chars span =>
        rw [atom] at compiled
        cases compiled
        exact trivial
    | charClass inverted members span =>
        rw [atom] at compiled
        obtain ⟨set, -, rfl⟩ := map_eq_ok_iff.mp compiled
        exact trivial
  have repeated := Suffix.displays_wrap core_displays part.suffix
  unfold Part.wrap
  cases part.stringify <;> cases part.atom <;> exact repeated

/-- The parts of a sequence display their values under the names of the parts of the rule. -/
theorem displays_parts {parts : List Part} {converted : List (Option String × Expr)}
    (h : List.Forall₂ (fun part result => part.compileNamed = .ok result) parts converted) :
    (∀ part ∈ converted, part.2.Displays labels) ∧
      converted.filterMap (·.1) = parts.filterMap (·.field.map (·.name)) := by
  induction h with
  | nil => simp
  | @cons part result parts converted compiled _ ih =>
      obtain ⟨expr, part_compiled, rfl⟩ := map_eq_ok_iff.mp compiled
      refine ⟨fun other among => ?_, ?_⟩
      · rcases List.mem_cons.mp among with rfl | among
        · exact Part.displays_compile part_compiled
        · exact ih.1 other among
      · rw [List.filterMap_cons, List.filterMap_cons, ih.2]

theorem Expr.displays_choice {alternatives : List Expr}
    (h : ∀ alternative ∈ alternatives, alternative.Displays labels) :
    (choice alternatives).Displays labels := by
  suffices ∀ before : Expr, before.Displays labels →
      (alternatives.foldl orElse before).Displays labels from this never trivial
  induction alternatives with
  | nil => exact fun _ display => display
  | cons alternative alternatives ih =>
      intro before display
      exact ih (fun other among => h other (.tail _ among)) _ ⟨display, h _ List.mem_cons_self⟩

theorem Expr.sequences_sequence {parts : List (Option String × Expr)}
    (h : ∀ part ∈ parts, part.2.Displays labels) : (sequence parts).Sequences labels := by
  suffices ∀ before : Expr, before.Sequences labels →
      (parts.foldl (fun before part => append before part.1 part.2) before).Sequences labels
    from this empty trivial
  induction parts with
  | nil => exact fun _ sequences => sequences
  | cons part parts ih =>
      intro before sequences
      exact ih (fun other among => h other (.tail _ among)) _ ⟨sequences, h _ List.mem_cons_self⟩

end

variable {grammar : Grammar} {maxDepth : Nat} {program : Program}

/-- The bodies of a compiled grammar display their values, in records with the named parts of the
rule. -/
theorem Grammar.displays_body (compiled : grammar.compile maxDepth = .ok program) (rule : String)
    (body : Expr) (found : program.rules.resolve? rule = some body) :
    body.Displays grammar.Labels := by
  obtain ⟨definition, declared, compiled_body⟩ := exists_rule compiled found
  cases definition with
  | union ident cases span =>
      cases compiled_body
      refine Expr.displays_choice fun alternative among => ?_
      obtain ⟨target, -, rfl⟩ := List.mem_map.mp among
      exact trivial
  | sequence ident parts span =>
      have same_name : ident.name = rule := name_of_rule declared
      obtain ⟨converted, all, rfl⟩ := compile_sequence compiled_body
      obtain ⟨displays, names_eq⟩ := displays_parts all
      refine ⟨Expr.sequences_sequence displays, ident, parts, span, ?_, ?_⟩
      · rw [same_name, declared]
      · rw [Expr.parts_sequence, names_eq]

/-- The display tree of a match is a projection of its value. A session that steps through a match
of a compiled grammar returns events that build a tree whose root shows the value of the match, as
long as the counter of handles does not start over. All nodes in reach of the root are complete:
none is pending, leaves have no children, and each record has one child for each named part of its
rule. -/
theorem display_of_match {start text : String} {value : Value} {offset : Nat}
    (compiled : grammar.compile maxDepth = .ok program)
    (ran : program.run start text = .ok (.matched value, offset)) :
    ∃ session events last, program.session start text = .ok session ∧
      session.collect = (events, .ok last) ∧
      (last.machine.allocated + 1 < UInt32.size →
        (NodeTree.replay events).value? = some value.eraseSpans ∧
        ∀ id, (NodeTree.replay events).Reaches .root id →
          ∃ node, (NodeTree.replay events).get? id = some node ∧
            (NodeTree.replay events).Complete grammar.Labels node) := by
  obtain ⟨body, context, declared, replied, -⟩ := reply_of_run ran
  obtain ⟨events, allocated, last, traced, collected, -, -, ends⟩ := collect_of_ok replied
  refine ⟨_, events, last, Session.of_declared declared, collected, fun few => ?_⟩
  have bounded : allocated < UInt32.size := by
    rw [ends.allocated_eq] at few
    omega
  have fresh : NodeTree.initial.Fresh 0 := by
    intro id new
    refine NodeTree.get_initial_of_ne ?_
    rintro rfl
    exact Nat.lt_irrefl _ new
  have clean : NodeTree.initial.Clean [.root] 0 :=
    NodeTree.clean_of_get (Nat.le_refl _) NodeTree.get_initial_root rfl
  obtain ⟨grows, shown⟩ :=
    (traced.builds (grammar.displays_body compiled) bounded fresh rfl).1 trivial clean
  have decodes := shown value rfl
  refine ⟨?_, fun id reached => decodes.reaches reached⟩
  have closed : ∀ parent : NodeId, parent ∈ [NodeId.root] ∨ 0 < parent.index →
      ∀ child ∈ (NodeTree.replay events).children parent,
        (child ∈ [NodeId.root] ∨ 0 < child.index) ∧ parent.index < child.index := by
    intro parent inside child among
    obtain ⟨later, new, -⟩ := grows.inside parent inside child among
    exact ⟨.inr new, later⟩
  exact decodes.decode_of_rank closed (.inl List.mem_cons_self)
    (Nat.lt_succ_of_le (NodeTree.rank_le_size ..))

/-- The first alternative and what it showed are gone from the tree in the end. -/
theorem display_of_item : ∃ program session events last,
    itemGrammar.compile 9 = .ok program ∧
      program.run "item" "ab?c!" = .ok (.matched itemValue, 5) ∧
      program.session "item" "ab?c!" = .ok session ∧ session.collect = (events, .ok last) ∧
      (NodeTree.replay events).value? = some itemValue.eraseSpans := by
  obtain ⟨program, compiled, finished⟩ : ∃ program, itemGrammar.compile 9 = .ok program ∧
      ((Machine.start "item" "ab?c!").finished? program 99).map (·.allocated) = some 17 := by
    refine ⟨_, rfl, ?_⟩
    decide +kernel
  have ran := run_item compiled
  obtain ⟨session, events, last, opened, collected, shown⟩ := display_of_match compiled ran
  cases Session.eq_opened opened
  have few : last.machine.allocated = 17 := allocated_of_finished finished collected
  obtain ⟨decoded, -⟩ := shown (by rw [few]; decide)
  exact ⟨program, _, events, last, compiled, ran, opened, collected, decoded⟩

end TracedGrammar

import TracedGrammar.Proofs.Grammar.Compiled
import TracedGrammar.Proofs.Trace.SameRules

/-!
# The order of the rules of a grammar

Rules refer to each other by name, and the names in a grammar that compiles are distinct. So the
order in which the rules are declared only tells which of them comes first, and does not matter for
a match that names its rule: references to earlier rules, to later ones, to the rule itself and to
rules that are not declared have the same meaning in any order (`Grammar.rule_eq_of_perm`).

The theorem to read first is `same_in_any_rule_order`.
-/

namespace TracedGrammar

namespace Grammar

variable {grammar other : Grammar} {maxDepth : Nat} {program program' : Program}

/-- Among rules with distinct names a name belongs to the only rule that has it. -/
theorem rule_eq_some_iff (distinct : grammar.ruleNames.Nodup) {name : String} {rule : Rule} :
    grammar.rule? name = some rule ↔ rule ∈ grammar.rules ∧ rule.name.name = name := by
  constructor
  · exact fun found => ⟨List.mem_of_find?_eq_some found, name_of_rule found⟩
  · rintro ⟨among, rfl⟩
    obtain ⟨first, found⟩ := declared_iff.mp (List.mem_map_of_mem among)
    have first_among := List.mem_of_find?_eq_some found
    have same : first = rule :=
      List.inj_on_of_nodup_map distinct first_among among (name_of_rule found)
    rw [found, same]

/-- A name means the same rule in any order of the rules. -/
theorem rule_eq_of_perm (distinct : grammar.ruleNames.Nodup)
    (permuted : other.rules.Perm grammar.rules) (name : String) :
    other.rule? name = grammar.rule? name := by
  have distinct' : other.ruleNames.Nodup := (permuted.map _).nodup_iff.mpr distinct
  ext rule
  rw [rule_eq_some_iff distinct, rule_eq_some_iff distinct', permuted.mem_iff]

/-- A grammar compiles in any order of its rules. -/
theorem compiles_of_perm (compiled : grammar.compile maxDepth = .ok program)
    (permuted : other.rules.Perm grammar.rules) :
    ∃ program', other.compile maxDepth = .ok program' := by
  obtain ⟨distinct, each⟩ := rules_of_compiled compiled
  exact exists_compiled_of_rules ((permuted.map _).nodup_iff.mpr distinct)
    (fun rule among => each rule (permuted.mem_iff.mp among)) maxDepth

/-- The programs of a grammar in two orders have the same rules. -/
theorem same_rules_of_perm (compiled : grammar.compile maxDepth = .ok program)
    (compiled' : other.compile maxDepth = .ok program')
    (permuted : other.rules.Perm grammar.rules) : program.SameRules program' := by
  intro name
  have found_eq := rule_eq_of_perm (rules_of_compiled compiled).1 permuted name
  cases found : grammar.rule? name with
  | none => rw [resolve_eq_none compiled found, resolve_eq_none compiled' (found_eq.trans found)]
  | some rule =>
      obtain ⟨body, rule_compiled, defined⟩ := exists_body compiled found
      obtain ⟨body', rule_compiled', defined'⟩ := exists_body compiled' (found_eq.trans found)
      cases rule_compiled.symm.trans rule_compiled'
      rw [defined, defined']

end Grammar

/-- The order of the rules does not matter to a match that names the rule to start from. A grammar
that compiles does so with its rules in any other order. Whatever the rule and the text are, direct
runs then have the same result, which is an outcome at an offset or a fault, and sessions return the
same events and end with the same verdict or the same report. -/
theorem same_in_any_rule_order {grammar : Grammar} {maxDepth : Nat} {program : Program}
    (compiled : grammar.compile maxDepth = .ok program) {other : Grammar}
    (permuted : other.rules.Perm grammar.rules) :
    ∃ program', other.compile maxDepth = .ok program' ∧
      ∀ start text, program'.run start text = program.run start text ∧
        (program'.session start text).map Session.transcript =
          (program.session start text).map Session.transcript := by
  obtain ⟨program', compiled'⟩ := Grammar.compiles_of_perm compiled permuted
  have same := Grammar.same_rules_of_perm compiled compiled' permuted
  have limit_eq : program'.maxDepth = program.maxDepth := by
    rw [Grammar.max_depth_compiled compiled, Grammar.max_depth_compiled compiled']
  exact ⟨program', compiled', same.alike limit_eq⟩

/-- Items are read alike by a grammar that declares the parts of an item before the item. -/
theorem item_in_other_order : ∃ program program',
    itemGrammar.compile 9 = .ok program ∧
      itemGrammar.rules.reverse.Perm itemGrammar.rules ∧
      { itemGrammar with rules := itemGrammar.rules.reverse }.compile 9 = .ok program' ∧
      program'.firstRule? ≠ program.firstRule? ∧
      program'.run "item" "ab?c!" = .ok (.matched itemValue, 5) ∧
      (program'.session "item" "ab?c!").map Session.transcript =
        (program.session "item" "ab?c!").map Session.transcript := by
  obtain ⟨program, compiled⟩ : ∃ program, itemGrammar.compile 9 = .ok program := ⟨_, rfl⟩
  have permuted := itemGrammar.rules.reverse_perm
  obtain ⟨program', compiled', alike⟩ := @same_in_any_rule_order _ _ _ compiled
    { itemGrammar with rules := itemGrammar.rules.reverse } permuted
  obtain ⟨run_eq, session_eq⟩ := alike "item" "ab?c!"
  have other_first : program'.firstRule? ≠ program.firstRule? := by
    cases compiled
    cases compiled'
    decide
  exact ⟨program, program', compiled, permuted, compiled', other_first,
    run_eq.trans (run_item compiled), session_eq⟩

end TracedGrammar

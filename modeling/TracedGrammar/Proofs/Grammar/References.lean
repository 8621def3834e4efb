import TracedGrammar.Proofs.Grammar.Compiled
import TracedGrammar.Proofs.Trace.Agreement

/-!
# References to rules that are not declared

A rule without a definition is found missing when it is called. The rules that a program can call
stand in its expressions (`Expr.callees`), so a fault about a missing rule names one of them
(`Traced.called_of_unresolved`). What a rule of a grammar compiles to calls the rules that the rule
refers to, and no others (`Rule.callees_of_compile`). So looking for undeclared references in the
syntax tree, as `Grammar.unresolved` and `Grammar.checkReferences` do, finds all that can be found
missing.

The theorem to read first is `unresolved_of_reports`.
-/

namespace TracedGrammar

/-- The rules that an expression calls, in order. -/
def Expr.callees : Expr → List String
  | call rule => [rule]
  | literal _ | charClass _ | empty | never => []
  | stringify body | optional body | repeated _ body | tagged _ body | untagged _ body
  | located _ body => body.callees
  | append before _ part | orElse before part => before.callees ++ part.callees

/-- The rules that a task calls. -/
def Task.callees : Task → List String
  | expr subject _ | parts subject _ | options subject _ | items _ subject _ _ => subject.callees

/-- A rule of the program calls the rule. -/
def Program.Calls (program : Program) (rule : String) : Prop :=
  ∃ name body, program.rules.resolve? name = some body ∧ rule ∈ body.callees

/-- A rule that is found missing has no definition, and the task calls it or a rule of the program
does. -/
theorem Traced.called_of_unresolved {program : Program} {task : Task} {count count' : Nat}
    {context : Context} {events : List Event} {reply : Reply} {rule : String}
    (h : Traced program task count context events count' reply)
    (missing : reply.fault? = some (.unresolved rule)) :
    program.rules.resolve? rule = none ∧ (rule ∈ task.callees ∨ program.Calls rule) := by
  induction h with
  | unresolved undefined =>
      cases missing
      exact ⟨undefined, .inl List.mem_cons_self⟩
  | call resolved _ _ ih =>
      rw [Reply.fault_exitRule] at missing
      obtain ⟨undefined, called⟩ := ih missing
      exact ⟨undefined, .inr (called.elim (fun among => ⟨_, _, resolved, among⟩) id)⟩
  | tagged _ ih =>
      rw [Reply.fault_tag] at missing
      exact ih missing
  | parts_next _ _ _ ih' =>
      rw [Reply.fault_join] at missing
      exact (ih' missing).imp_right (.imp_left (List.mem_append_right _))
  | options_head _ _ ih =>
      rw [Reply.fault_putBack] at missing
      exact ih missing
  | options_next _ _ _ ih' =>
      rw [Reply.fault_putBack] at missing
      exact (ih' missing).imp_right (.imp_left (List.mem_append_right _))
  | parts_stop _ _ ih | options_stop _ _ ih =>
      exact (ih missing).imp_right (.imp_left (List.mem_append_left _))
  | items_more _ _ _ _ ih' => exact ih' missing
  | stringify_pass _ _ ih | optional_pass _ _ ih | repeated _ ih | append _ _ ih | orElse _ ih
  | untagged _ ih | located _ ih | parts_head _ _ ih | items_fault _ ih => exact ih missing
  | literal_hit | literal_miss | class_hit | class_miss | stringify_hit | optional_miss | too_deep
  | empty | never | parts_empty | options_never | items_end | items_stuck => cases missing

/-! ### What compiled rules call -/

namespace Expr

theorem callees_sequence (parts : List (Option String × Expr)) :
    (sequence parts).callees = parts.flatMap fun part => part.2.callees := by
  rw [sequence, List.flatMap_eq_foldl]
  exact (List.foldl_hom callees fun _ _ => rfl).symm

theorem callees_choice (alternatives : List Expr) :
    (choice alternatives).callees = alternatives.flatMap callees := by
  rw [choice, List.flatMap_eq_foldl]
  exact (List.foldl_hom callees fun _ _ => rfl).symm

end Expr

theorem Atom.callees_of_compile {atom : Atom} {core : Expr} (compiled : atom.compile = .ok core) :
    core.callees = atom.target?.toList.map (·.name) := by
  cases atom with
  | reference | literal =>
      cases compiled
      rfl
  | charClass inverted members span =>
      obtain ⟨set, -, rfl⟩ := map_eq_ok_iff.mp compiled
      rfl

namespace Part

theorem callees_wrap (part : Part) (core : Expr) : (part.wrap core).callees = core.callees := by
  obtain ⟨field, stringify, atom, suffix, span⟩ := part
  have suffixed : (Suffix.wrap core suffix).callees = core.callees := by
    rcases suffix with _ | _ | _ | _ <;> rfl
  cases atom <;> cases stringify <;> exact suffixed

theorem callees_of_compile {part : Part} {named : Option String × Expr}
    (compiled : part.compileNamed = .ok named) :
    named.2.callees = part.atom.target?.toList.map (·.name) := by
  obtain ⟨expr, part_compiled, rfl⟩ := map_eq_ok_iff.mp compiled
  obtain ⟨core, atom_compiled, rfl⟩ := map_eq_ok_iff.mp part_compiled
  exact (part.callees_wrap core).trans (Atom.callees_of_compile atom_compiled)

end Part

/-- A rule calls the rules that it refers to. -/
theorem Rule.callees_of_compile {rule : Rule} {body : Expr} (compiled : rule.compile = .ok body) :
    body.callees = rule.references.map (·.name) := by
  cases rule with
  | union name cases span =>
      cases compiled
      show (Expr.choice _).callees = cases.map (·.name)
      rw [Expr.callees_choice, List.flatMap_map]
      exact List.map_eq_flatMap.symm
  | sequence name parts span =>
      obtain ⟨converted, all, rfl⟩ := Grammar.compile_sequence compiled
      have called : List.Forall₂ (fun part named =>
          named.2.callees = part.atom.target?.toList.map (·.name)) parts converted :=
        all.imp fun part named => Part.callees_of_compile
      show (Expr.sequence converted).callees = (parts.filterMap (·.atom.target?)).map (·.name)
      rw [Expr.callees_sequence, List.filterMap_eq_flatMap_toList, List.map_flatMap]
      clear all compiled
      induction called with
      | nil => rfl
      | cons same _ ih => rw [List.flatMap_cons, List.flatMap_cons, same, ih]

namespace Grammar

variable {grammar : Grammar} {maxDepth : Nat} {program : Program} {start text : String}

/-- A rule that a compiled program calls is referred to in the grammar. -/
theorem exists_reference {rule : String} (compiled : grammar.compile maxDepth = .ok program)
    (called : program.Calls rule) :
    ∃ target ∈ grammar.rules.flatMap Rule.references, target.name = rule := by
  obtain ⟨name, body, defined, among⟩ := called
  obtain ⟨source, found, source_compiled⟩ := exists_rule compiled defined
  rw [Rule.callees_of_compile source_compiled] at among
  obtain ⟨target, referred, rfl⟩ := List.mem_map.mp among
  exact ⟨target, List.mem_flatMap.mpr ⟨source, List.mem_of_find?_eq_some found, referred⟩, rfl⟩

theorem not_declared_of_undefined {rule : String}
    (compiled : grammar.compile maxDepth = .ok program)
    (undefined : program.rules.resolve? rule = none) : rule ∉ grammar.ruleNames := by
  intro declared
  obtain ⟨source, found⟩ := declared_iff.mp declared
  obtain ⟨body, -, defined⟩ := exists_body compiled found
  rw [undefined] at defined
  cases defined

/-- A rule that is found missing in a match of a declared rule is among the references that the
grammar does not declare. -/
theorem unresolved_of_reply {context : Context} {rule : String}
    (compiled : grammar.compile maxDepth = .ok program) (declared : start ∈ grammar.ruleNames)
    (missing : (program.reply (.call start) context).fault? = some (.unresolved rule)) :
    ∃ target ∈ grammar.unresolved, target.name = rule := by
  obtain ⟨events, count, traced⟩ := exists_traced program (.call start) .root 0 context
  obtain ⟨undefined, among | called⟩ := traced.called_of_unresolved missing
  · cases List.mem_singleton.mp among
    exact absurd declared (not_declared_of_undefined compiled undefined)
  · obtain ⟨target, referred, rfl⟩ := exists_reference compiled called
    refine ⟨target, List.mem_filter.mpr ⟨referred, ?_⟩, rfl⟩
    simpa using not_declared_of_undefined compiled undefined

theorem check_references_eq_ok_iff :
    grammar.checkReferences = .ok () ↔ grammar.unresolved = [] := by
  rw [checkReferences]
  cases grammar.unresolved <;> simp

end Grammar

theorem Fault.eq_unresolved {fault : Fault} (kind_eq : fault.diagnostic.kind = .unresolvedRule) :
    fault = .unresolved fault.diagnostic.message := by
  cases fault with
  | unresolved rule => rfl
  | unknownStart | tooDeep | noProgress => cases kind_eq

/-- Matching a rule against a text ends in the report: the fault of a direct run has it, a parse of
the whole text yields it, or a step of a session returns it. -/
inductive Program.Reports (program : Program) (start text : String) : Diagnostic → Prop where
  | run {fault} (ended : program.run start text = .error fault) :
      Reports program start text fault.diagnostic
  | parse {report} (ended : program.parse start text = .error report) :
      Reports program start text report
  | step {session steps report} (opened : program.session start text = .ok session)
      (failed : (session.after steps).step.1 = .error report) : Reports program start text report

section

variable {grammar : Grammar} {maxDepth : Nat} {program : Program} {start text : String}
  {report : Diagnostic}

/-- A report about a missing rule is that of a fault that the call of the start rule ends in. -/
theorem Program.Reports.missing {body : Expr} (h : program.Reports start text report)
    (declared : program.rules.resolve? start = some body)
    (kind_eq : report.kind = .unresolvedRule) :
    (program.reply (.call start) (.start text)).fault? = some (.unresolved report.message) := by
  have of_run : ∀ fault, program.run start text = .error fault →
      fault.diagnostic.kind = .unresolvedRule →
      (program.reply (.call start) (.start text)).fault? =
        some (.unresolved fault.diagnostic.message) := by
    intro fault ended kind_eq
    obtain ⟨context, replied⟩ := (run_eq_error_iff declared).mp ended
    rw [replied]
    exact congrArg some (Fault.eq_unresolved kind_eq)
  cases h with
  | run ended => exact of_run _ ended kind_eq
  | parse ended =>
      rw [Program.parse] at ended
      split at ended
      · rename_i fault ran
        cases ended
        exact of_run fault ran kind_eq
      · -- a rejection is a report of another kind
        split at ended <;> cases ended
        cases kind_eq
      · cases ended
        cases kind_eq
  | step opened failed =>
      cases Session.eq_opened opened
      obtain ⟨fault, context, replied, rfl⟩ := error_of_step failed
      exact of_run fault ((run_eq_error_iff declared).mpr ⟨context, replied⟩) kind_eq

/-- The static check of references is sound. If matching a declared rule of a grammar that compiles
ends in a report about a missing rule, then the message of the report is the name of one of the
references that the grammar does not declare. So there is no such report if the check of references
succeeds. -/
theorem unresolved_of_reports (compiled : grammar.compile maxDepth = .ok program)
    (declared : start ∈ grammar.ruleNames) (text : String) :
    (∀ report, program.Reports start text report → report.kind = .unresolvedRule →
      ∃ target ∈ grammar.unresolved, target.name = report.message) ∧
    (grammar.checkReferences = .ok () →
      ∀ report, program.Reports start text report → report.kind ≠ .unresolvedRule) := by
  obtain ⟨rule, found⟩ := Grammar.declared_iff.mp declared
  obtain ⟨body, -, defined⟩ := Grammar.exists_body compiled found
  have listed : ∀ report, program.Reports start text report → report.kind = .unresolvedRule →
      ∃ target ∈ grammar.unresolved, target.name = report.message :=
    fun report reported kind_eq =>
      Grammar.unresolved_of_reply compiled declared (reported.missing defined kind_eq)
  refine ⟨listed, fun checked report reported kind_eq => ?_⟩
  obtain ⟨target, among, -⟩ := listed report reported kind_eq
  rw [Grammar.check_references_eq_ok_iff.mp checked] at among
  cases among

/-- A letter, possibly before a tail that is not declared. -/
def danglingGrammar : Grammar where
  rules := [.sequence ⟨"word", ⟨0, 4⟩⟩
    [⟨none, false, letterClass, none, ⟨7, 12⟩⟩,
      ⟨none, false, .reference ⟨"tail", ⟨13, 17⟩⟩, some .optional, ⟨13, 18⟩⟩] ⟨0, 19⟩]
  span := ⟨0, 19⟩

/-- The missing tail is found behind the first letter only, where the check of references has it
from the start. The references of items are all declared. -/
theorem unresolved_of_dangling :
    (∃ program report, danglingGrammar.compile 9 = .ok program ∧
      "word" ∈ danglingGrammar.ruleNames ∧ program.Reports "word" "a" report ∧
      report.kind = .unresolvedRule ∧
      ∃ target ∈ danglingGrammar.unresolved, target.name = report.message) ∧
    ∃ program, itemGrammar.compile 9 = .ok program ∧ "item" ∈ itemGrammar.ruleNames ∧
      itemGrammar.checkReferences = .ok () ∧
      ∀ report, program.Reports "item" "a?b" report → report.kind ≠ .unresolvedRule := by
  constructor
  · obtain ⟨program, compiled, ran⟩ : ∃ program, danglingGrammar.compile 9 = .ok program ∧
        program.run "word" "a" = .error (.unresolved "tail") := ⟨_, rfl, rfl⟩
    have declared : "word" ∈ danglingGrammar.ruleNames := by decide
    have reported := Program.Reports.run ran
    exact ⟨program, _, compiled, declared, reported, rfl,
      (unresolved_of_reports compiled declared "a").1 _ reported rfl⟩
  · obtain ⟨program, compiled⟩ : ∃ program, itemGrammar.compile 9 = .ok program := ⟨_, rfl⟩
    have declared : "item" ∈ itemGrammar.ruleNames := by decide
    have checked : itemGrammar.checkReferences = .ok () := rfl
    exact ⟨program, compiled, declared, checked,
      (unresolved_of_reports compiled declared "a?b").2 checked⟩

end

end TracedGrammar

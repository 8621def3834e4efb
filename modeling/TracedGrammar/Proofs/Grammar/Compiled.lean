import Mathlib
import TracedGrammar.Grammar.Compile

/-!
# Which grammars compile, and to what

A grammar compiles if its rule names are distinct and its ranges are the right way round
(`Grammar.exists_compiled`). The program then has what each rule compiles to under the name of the
rule, and nothing else (`resolve_compiled`).
-/

namespace TracedGrammar

/-- A range does not begin after its end. -/
def ClassMember.IsOrdered : ClassMember → Prop
  | range low high _ => low.value ≤ high.value
  | single _ => True

/-- The ranges of an atom are the right way round. -/
def Atom.IsOrdered : Atom → Prop
  | charClass _ members _ => ∀ member ∈ members, member.IsOrdered
  | reference _ | literal .. => True

/-- The ranges of a rule are the right way round. -/
def Rule.IsOrdered : Rule → Prop
  | sequence _ parts _ => ∀ part ∈ parts, part.atom.IsOrdered
  | union .. => True

/-- All ranges of a grammar are the right way round. -/
def Grammar.IsOrdered (grammar : Grammar) : Prop :=
  ∀ rule ∈ grammar.rules, rule.IsOrdered

instance : (member : ClassMember) → Decidable member.IsOrdered
  | .range low high _ => inferInstanceAs (Decidable (low.value ≤ high.value))
  | .single _ => inferInstanceAs (Decidable True)

instance : (atom : Atom) → Decidable atom.IsOrdered
  | .charClass _ members _ =>
      inferInstanceAs (Decidable (∀ member ∈ members, member.IsOrdered))
  | .reference _ | .literal .. => inferInstanceAs (Decidable True)

instance : (rule : Rule) → Decidable rule.IsOrdered
  | .sequence _ parts _ => inferInstanceAs (Decidable (∀ part ∈ parts, part.atom.IsOrdered))
  | .union .. => inferInstanceAs (Decidable True)

instance (grammar : Grammar) : Decidable grammar.IsOrdered :=
  inferInstanceAs (Decidable (∀ rule ∈ grammar.rules, rule.IsOrdered))

theorem mapM_eq_ok_iff {ε α β : Type} {convert : α → Except ε β} {items : List α}
    {results : List β} :
    items.mapM convert = .ok results ↔
      List.Forall₂ (fun item result => convert item = .ok result) items results := by
  induction items generalizing results with
  | nil => cases results <;> simp [pure, Except.pure]
  | cons item items ih =>
      rw [List.mapM_cons]
      cases results with
      | nil =>
          cases convert item <;> cases items.mapM convert <;>
            simp [bind, Except.bind, pure, Except.pure]
      | cons result results =>
          rw [List.forall₂_cons, ← ih]
          cases convert item <;> cases items.mapM convert <;>
            simp [bind, Except.bind, pure, Except.pure]

/-- A conversion of each item is a conversion of the list. -/
theorem exists_mapM {ε α β : Type} {convert : α → Except ε β} {items : List α}
    (h : ∀ item ∈ items, ∃ result, convert item = .ok result) :
    ∃ results, items.mapM convert = .ok results := by
  induction items with
  | nil => exact ⟨[], rfl⟩
  | cons item items ih =>
      obtain ⟨result, converted⟩ := h item List.mem_cons_self
      obtain ⟨results, rest⟩ := ih fun other among => h other (.tail _ among)
      exact ⟨result :: results, by rw [List.mapM_cons, converted, rest]; rfl⟩

/-- An item of one of two related lists is related to one of the other list. -/
theorem exists_related_of_mem {α β : Type} {related : α → β → Prop} {items : List α}
    {others : List β} (all : List.Forall₂ related items others) {item : α} (among : item ∈ items) :
    ∃ other ∈ others, related item other := by
  induction all with
  | nil => cases among
  | cons both _ ih =>
      rcases List.mem_cons.mp among with rfl | later
      · exact ⟨_, List.mem_cons_self, both⟩
      · obtain ⟨other, among_others, both⟩ := ih later
        exact ⟨other, .tail _ among_others, both⟩

theorem map_eq_ok_iff {ε α β : Type} {convert : α → β} {result : Except ε α} {value : β} :
    result.map convert = .ok value ↔ ∃ inner, result = .ok inner ∧ convert inner = value := by
  cases result <;> simp [Except.map]

theorem exists_compiled_member {member : ClassMember} (h : member.IsOrdered) :
    ∃ item, member.compile = .ok item := by
  cases member with
  | single char => exact ⟨_, rfl⟩
  | range low high span => exact ⟨_, if_neg (Char.not_lt.mpr h)⟩

theorem exists_compiled_part {part : Part} (h : part.atom.IsOrdered) :
    ∃ expr, part.compile = .ok expr := by
  suffices ∃ core, part.atom.compile = .ok core by
    obtain ⟨core, compiled⟩ := this
    exact ⟨part.wrap core, by rw [Part.compile, compiled]; rfl⟩
  cases atom : part.atom with
  | reference target => exact ⟨_, rfl⟩
  | literal quote chars span => exact ⟨_, rfl⟩
  | charClass inverted members span =>
      rw [atom] at h
      obtain ⟨items, converted⟩ := exists_mapM fun member among =>
        exists_compiled_member (h member among)
      exact ⟨_, by rw [Atom.compile, CharClass.ofMembers, converted]; rfl⟩

theorem exists_compiled_rule {rule : Rule} (h : rule.IsOrdered) :
    ∃ body, rule.compile = .ok body := by
  cases rule with
  | union name cases span => exact ⟨_, rfl⟩
  | sequence name parts span =>
      obtain ⟨converted, compiled⟩ : ∃ results, parts.mapM Part.compileNamed = .ok results := by
        refine exists_mapM fun part among => ?_
        obtain ⟨expr, compiled⟩ := exists_compiled_part (h part among)
        exact ⟨_, by rw [Part.compileNamed, compiled]; rfl⟩
      exact ⟨_, by rw [Rule.compile, compiled]; rfl⟩

namespace Grammar

/-- No name occurs twice among distinct ones. -/
theorem find_duplicate_eq_none {earlier idents : List Ident}
    (distinct : ((earlier ++ idents).map (·.name)).Nodup) :
    findDuplicate? earlier idents = none := by
  induction idents generalizing earlier with
  | nil => rfl
  | cons ident idents ih =>
      have unseen : earlier.find? (·.name == ident.name) = none := by
        rw [List.find?_eq_none]
        intro other among same
        rw [List.map_append, List.nodup_append] at distinct
        exact distinct.2.2 other.name (List.mem_map_of_mem among) ident.name
          (by simp) (eq_of_beq same)
      rw [findDuplicate?, unseen]
      exact ih (by simpa using distinct)

/-- A name that is not found among distinct ones is a further distinct one. -/
theorem nodup_concat_of_unseen {earlier : List Ident} {ident : Ident}
    (distinct : (earlier.map (·.name)).Nodup)
    (unseen : earlier.find? (·.name == ident.name) = none) :
    ((earlier ++ [ident]).map (·.name)).Nodup := by
  rw [List.map_append, List.nodup_append]
  refine ⟨distinct, List.nodup_singleton _, fun name among last is_last same => ?_⟩
  cases List.mem_singleton.mp is_last
  obtain ⟨first, earlier_first, rfl⟩ := List.mem_map.mp among
  exact List.find?_eq_none.mp unseen first earlier_first (beq_iff_eq.mpr same)

/-- Names are distinct if none is found twice among them. -/
theorem nodup_of_find_duplicate {earlier idents : List Ident}
    (distinct : (earlier.map (·.name)).Nodup) (unseen : findDuplicate? earlier idents = none) :
    ((earlier ++ idents).map (·.name)).Nodup := by
  induction idents generalizing earlier with
  | nil => rwa [List.append_nil]
  | cons ident idents ih =>
      rw [findDuplicate?] at unseen
      split at unseen
      · cases unseen
      · rename_i not_found
        simpa using ih (nodup_concat_of_unseen distinct not_found) unseen

/-- The first name that occurs again has one occurrence before. -/
theorem split_of_find_duplicate {earlier idents : List Ident} {first second : Ident}
    (distinct : (earlier.map (·.name)).Nodup)
    (found : findDuplicate? earlier idents = some (first, second)) :
    ∃ front back, idents = front ++ second :: back ∧ ((earlier ++ front).map (·.name)).Nodup ∧
      first ∈ earlier ++ front ∧ first.name = second.name := by
  induction idents generalizing earlier with
  | nil => cases found
  | cons ident idents ih =>
      rw [findDuplicate?] at found
      split at found
      · rename_i seen
        cases found
        have same := List.find?_some seen
        exact ⟨[], idents, rfl, by simpa using distinct,
          by simpa using List.mem_of_find?_eq_some seen, eq_of_beq same⟩
      · rename_i not_found
        obtain ⟨front, back, rfl, distinct_front, among, same⟩ :=
          ih (nodup_concat_of_unseen distinct not_found) found
        rw [List.append_assoc] at distinct_front among
        exact ⟨ident :: front, back, rfl, distinct_front, among, same⟩

/-- A name means what the first rule of that name compiles to, and nothing without a rule. -/
theorem lookup_compiled {rules : List Rule} {named : List (String × Expr)} (name : String)
    (h : List.Forall₂ (fun rule named => rule.compile.map (fun body => (rule.name.name, body)) =
      .ok named) rules named) :
    Option.Rel (fun rule body => rule.compile = .ok body)
      (rules.find? (·.name.name == name))
      ((named.map fun (name, body) => (name, some body)).lookup name).join := by
  induction h with
  | nil => exact .none
  | @cons rule first rules named converted _ ih =>
      obtain ⟨body, compiled, rfl⟩ := map_eq_ok_iff.mp converted
      rw [List.map_cons]
      by_cases same : rule.name.name = name
      · subst same
        rw [List.find?_cons_of_pos (by simp), List.lookup_cons_self]
        exact .some compiled
      · have other : (name == rule.name.name) = false := by
          rw [beq_eq_false_iff_ne]
          exact fun eq => same eq.symm
        rw [List.find?_cons_of_neg (by simpa using same), List.lookup_cons, other]
        exact ih

theorem name_of_rule {grammar : Grammar} {name : String} {rule : Rule}
    (found : grammar.rule? name = some rule) : rule.name.name = name := by
  have same := List.find?_some found
  exact eq_of_beq same

theorem declared_iff {grammar : Grammar} {name : String} :
    name ∈ grammar.ruleNames ↔ ∃ rule, grammar.rule? name = some rule := by
  rw [← Option.isSome_iff_exists, rule?, List.find?_isSome, ruleNames, List.mem_map]
  simp only [beq_iff_eq]

/-- A sequence rule compiles to a tagged sequence of what its parts compile to. -/
theorem compile_sequence {ident : Ident} {parts : List Part} {span : Span} {body : Expr}
    (h : Rule.compile (.sequence ident parts span) = .ok body) :
    ∃ converted,
      List.Forall₂ (fun part named => part.compileNamed = .ok named) parts converted ∧
        body = .tagged ident.name (.sequence converted) := by
  obtain ⟨converted, all, rfl⟩ : ∃ converted, parts.mapM Part.compileNamed = .ok converted ∧
      .tagged ident.name (.sequence converted) = body := map_eq_ok_iff.mp h
  exact ⟨converted, mapM_eq_ok_iff.mp all, rfl⟩

/-- Each part of a compiled sequence is what a part of the rule means. -/
theorem exists_part {parts : List Part} {converted : List (Option String × Expr)}
    (all : List.Forall₂ (fun part named => part.compileNamed = .ok named) parts converted)
    {named : Option String × Expr} (among : named ∈ converted) :
    ∃ part ∈ parts, part.compileNamed = .ok named :=
  exists_related_of_mem all.flip among

section

variable {grammar : Grammar} {maxDepth : Nat} {program : Program} {name : String}

/-- The rules of a grammar that compiles have distinct names, and each of them compiles. -/
theorem rules_of_compiled (h : grammar.compile maxDepth = .ok program) :
    grammar.ruleNames.Nodup ∧ ∀ rule ∈ grammar.rules, ∃ body, rule.compile = .ok body := by
  obtain ⟨named, compiled, -⟩ := map_eq_ok_iff.mp h
  unfold compileRules at compiled
  split at compiled
  · cases compiled
  · rename_i unseen
    constructor
    · simpa [ruleNames, Function.comp_def] using
        @nodup_of_find_duplicate [] _ List.nodup_nil unseen
    · intro rule among
      obtain ⟨result, -, converted⟩ := exists_related_of_mem (mapM_eq_ok_iff.mp compiled) among
      obtain ⟨body, body_compiled, -⟩ := map_eq_ok_iff.mp converted
      exact ⟨body, body_compiled⟩

/-- The rules of a compiled program are what the rules of the grammar compile to. -/
theorem resolve_compiled (h : grammar.compile maxDepth = .ok program) (name : String) :
    Option.Rel (fun rule body => rule.compile = .ok body) (grammar.rule? name)
      (program.rules.resolve? name) := by
  obtain ⟨named, compiled, rfl⟩ := map_eq_ok_iff.mp h
  unfold compileRules at compiled
  split at compiled
  · cases compiled
  · exact lookup_compiled name (mapM_eq_ok_iff.mp compiled)

theorem exists_body {rule : Rule} (h : grammar.compile maxDepth = .ok program)
    (found : grammar.rule? name = some rule) :
    ∃ body, rule.compile = .ok body ∧ program.rules.resolve? name = some body := by
  have resolved := resolve_compiled h name
  rw [found] at resolved
  cases defined : program.rules.resolve? name with
  | none =>
      rw [defined] at resolved
      cases resolved
  | some body =>
      rw [defined] at resolved
      obtain ⟨compiled⟩ := resolved
      exact ⟨body, compiled, rfl⟩

theorem exists_rule {body : Expr} (h : grammar.compile maxDepth = .ok program)
    (defined : program.rules.resolve? name = some body) :
    ∃ rule, grammar.rule? name = some rule ∧ rule.compile = .ok body := by
  have resolved := resolve_compiled h name
  rw [defined] at resolved
  cases found : grammar.rule? name with
  | none =>
      rw [found] at resolved
      cases resolved
  | some rule =>
      rw [found] at resolved
      obtain ⟨compiled⟩ := resolved
      exact ⟨rule, rfl, compiled⟩

theorem resolve_eq_none (h : grammar.compile maxDepth = .ok program)
    (missing : grammar.rule? name = none) : program.rules.resolve? name = none := by
  rw [Option.eq_none_iff_forall_ne_some]
  intro body defined
  obtain ⟨rule, found, -⟩ := exists_rule h defined
  rw [missing] at found
  cases found

/-- The limit on nested calls is the one that was asked for. -/
theorem max_depth_compiled (h : grammar.compile maxDepth = .ok program) :
    program.maxDepth = maxDepth := by
  obtain ⟨named, -, rfl⟩ := map_eq_ok_iff.mp h
  rfl

end

/-- A grammar with distinct rule names compiles if its rules do. -/
theorem exists_compiled_of_rules {grammar : Grammar} (distinct : grammar.ruleNames.Nodup)
    (each : ∀ rule ∈ grammar.rules, ∃ body, rule.compile = .ok body) (maxDepth : Nat) :
    ∃ program, grammar.compile maxDepth = .ok program := by
  have no_duplicate : findDuplicate? [] (grammar.rules.map Rule.name) = none :=
    find_duplicate_eq_none (by simpa [ruleNames, Function.comp_def] using distinct)
  obtain ⟨rules, compiled⟩ : ∃ rules, grammar.rules.mapM
      (fun rule => rule.compile.map fun expr => (rule.name.name, expr)) = .ok rules := by
    refine exists_mapM fun rule among => ?_
    obtain ⟨body, compiled⟩ := each rule among
    exact ⟨_, by rw [compiled]; rfl⟩
  exact ⟨_, by rw [compile, compileRules, no_duplicate]; simp only [compiled]; rfl⟩

/-- A grammar with distinct rule names and ranges that are the right way round compiles. -/
theorem exists_compiled {grammar : Grammar} (distinct : grammar.ruleNames.Nodup)
    (ordered : grammar.IsOrdered) (maxDepth : Nat) :
    ∃ program, grammar.compile maxDepth = .ok program :=
  exists_compiled_of_rules distinct (fun rule among => exists_compiled_rule (ordered rule among))
    maxDepth

end Grammar

/-- A letter from a to c. -/
def letterClass : Atom :=
  .charClass false [.range ⟨'a', false, ⟨1, 2⟩⟩ ⟨'c', false, ⟨3, 4⟩⟩ ⟨1, 4⟩] ⟨0, 5⟩

/-- A mark of one character. -/
def markLiteral (mark : Char) : Atom :=
  .literal .double [⟨mark, false, ⟨1, 2⟩⟩] ⟨0, 3⟩

/-- An item is a word with an exclamation mark, or letters with a question mark, possibly before
another item. -/
def itemGrammar : Grammar where
  rules :=
    [.union ⟨"item", ⟨0, 4⟩⟩ [⟨"word", ⟨7, 11⟩⟩, ⟨"query", ⟨14, 19⟩⟩] ⟨0, 19⟩,
      .sequence ⟨"word", ⟨20, 24⟩⟩
        [⟨some ⟨"text", ⟨0, 4⟩⟩, true, letterClass, some .oneOrMore, ⟨0, 5⟩⟩,
          ⟨none, false, markLiteral '!', none, ⟨0, 3⟩⟩] ⟨20, 40⟩,
      .sequence ⟨"query", ⟨41, 46⟩⟩
        [⟨some ⟨"letters", ⟨0, 7⟩⟩, false, letterClass, some .zeroOrMore, ⟨0, 5⟩⟩,
          ⟨none, false, markLiteral '?', none, ⟨0, 3⟩⟩,
          ⟨some ⟨"more", ⟨0, 4⟩⟩, false, .reference ⟨"item", ⟨0, 4⟩⟩, some .optional, ⟨0, 4⟩⟩]
        ⟨41, 80⟩]
  span := ⟨0, 80⟩

/-- What the example yields for a text. -/
def itemValue : Value :=
  .record { tag := some "query", span := some ⟨0, 5⟩, fields :=
    [("letters", .list [.text "a", .text "b"]),
      ("more", .record
        { tag := some "word", span := some ⟨3, 5⟩, fields := [("text", .text "c")] })] }

/-- The second case of an item reads the letters again that the first one gave back. -/
theorem run_item {program : Program} (compiled : itemGrammar.compile 9 = .ok program) :
    program.run "item" "ab?c!" = .ok (.matched itemValue, 5) := by
  obtain ⟨same, same_compiled, ran⟩ : ∃ same, itemGrammar.compile 9 = .ok same ∧
      same.run "item" "ab?c!" = .ok (.matched itemValue, 5) := by
    refine ⟨_, rfl, ?_⟩
    cbv
  cases same_compiled.symm.trans compiled
  exact ran

end TracedGrammar

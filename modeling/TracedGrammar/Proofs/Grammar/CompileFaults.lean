import TracedGrammar.Proofs.Grammar.Interpretation

/-!
# What keeps a grammar from being compiled

Declaring the names stops at the first one that occurred before. The rules are looked at after that
only; converting them stops at the first range with its bounds the wrong way round, in the order of
the rules, of their parts and of the members of a class (`Judged`). So the fault that is reported is
one of two, and always the same one (`Grammar.Blames`).

The theorem to read first is `compile_in_every_interpretation`.
-/

namespace TracedGrammar

open CompileFault (reported)

/-- The members of the class in brackets that an atom is. -/
def Atom.classMembers : Atom → List ClassMember
  | charClass _ members _ => members
  | reference _ | literal .. => []

/-- The members of the classes of a rule, in order. -/
def Rule.classMembers : Rule → List ClassMember
  | sequence _ parts _ => parts.flatMap (·.atom.classMembers)
  | union .. => []

/-- The members of the classes of a grammar, in order. -/
def Grammar.classMembers (grammar : Grammar) : List ClassMember :=
  grammar.rules.flatMap Rule.classMembers

/-- What converting something with the given class members comes to: they are the right way round,
or the fault is about the first of them that is not. -/
def Judged {α : Type} (members : List ClassMember) : Except CompileFault α → Prop
  | .ok _ => ∀ member ∈ members, member.IsOrdered
  | .error fault => ∃ front low high span back, members = front ++ .range low high span :: back ∧
      (∀ member ∈ front, member.IsOrdered) ∧ high.value < low.value ∧
        fault = .invertedRange low.value high.value span

namespace Judged

variable {α β : Type} {members : List ClassMember} {result : Except CompileFault α}

theorem map (h : Judged members result) (view : α → β) : Judged members (result.map view) := by
  cases result <;> exact h

/-- Converting the items of a list stops at the first fault of any of them. -/
theorem mapM {membersOf : α → List ClassMember} {convert : α → Except CompileFault β}
    (each : ∀ item, Judged (membersOf item) (convert item)) (items : List α) :
    Judged (items.flatMap membersOf) (items.mapM convert) := by
  induction items with
  | nil => exact List.forall_mem_nil _
  | cons item items ih =>
      have first := each item
      rw [List.mapM_cons, List.flatMap_cons]
      cases converted : convert item with
      | error fault =>
          rw [converted] at first
          obtain ⟨front, low, high, span, back, split, ordered, inverted, rfl⟩ := first
          exact ⟨front, low, high, span, back ++ items.flatMap membersOf, by simp [split], ordered,
            inverted, rfl⟩
      | ok result =>
          rw [converted] at first
          cases rest : items.mapM convert with
          | ok results =>
              rw [rest] at ih
              exact fun member among => (List.mem_append.mp among).elim (first member) (ih member)
          | error fault =>
              rw [rest] at ih
              obtain ⟨front, low, high, span, back, split, ordered, inverted, rfl⟩ := ih
              refine ⟨membersOf item ++ front, low, high, span, back, by simp [split], ?_, inverted,
                rfl⟩
              exact fun member among => (List.mem_append.mp among).elim (first member)
                (ordered member)

end Judged

theorem ClassMember.judged (member : ClassMember) : Judged [member] member.compile := by
  cases member with
  | single char => exact fun _ among => List.mem_singleton.mp among ▸ trivial
  | range low high span =>
      rw [compile]
      split
      · rename_i inverted
        exact ⟨[], low, high, span, [], rfl, List.forall_mem_nil _, inverted, rfl⟩
      · rename_i ordered
        exact fun _ among => List.mem_singleton.mp among ▸ Char.not_lt.mp ordered

theorem Atom.judged (atom : Atom) : Judged atom.classMembers atom.compile := by
  cases atom with
  | reference | literal => exact List.forall_mem_nil _
  | charClass inverted members span =>
      have each := Judged.mapM ClassMember.judged members
      rw [List.flatMap_singleton'] at each
      exact (each.map _).map _

theorem Rule.judged (rule : Rule) : Judged rule.classMembers rule.compile := by
  cases rule with
  | union => exact List.forall_mem_nil _
  | sequence name parts span =>
      exact (Judged.mapM (fun part => (part.atom.judged.map _).map _) parts).map _

namespace Grammar

/-- A grammar with distinct rule names is stopped by its first range the wrong way round. -/
theorem judged (grammar : Grammar) (distinct : grammar.ruleNames.Nodup) (maxDepth : Nat) :
    Judged grammar.classMembers (grammar.compile maxDepth) := by
  have unseen : findDuplicate? [] (grammar.rules.map Rule.name) = none :=
    find_duplicate_eq_none (by simpa [ruleNames, Function.comp_def] using distinct)
  rw [compile, compileRules, unseen]
  exact (Judged.mapM (fun rule => rule.judged.map _) grammar.rules).map _

/-- A grammar and what is reported when it does not compile: the first rule with a name that
occurred before, or else the first range with its bounds the wrong way round. -/
inductive Blames (grammar : Grammar) : Diagnostic → Prop where
  | duplicate {front back : List Rule} {rule earlier : Rule}
      (split : grammar.rules = front ++ rule :: back)
      (distinct : (front.map (·.name.name)).Nodup) (among : earlier ∈ front)
      (same : earlier.name.name = rule.name.name) :
      Blames grammar
        { kind := .grammar
          message := s!"duplicate rule '{rule.name.name}'"
          span := some rule.name.span
          help := some "every rule name must be declared once"
          related := [⟨earlier.name.span, "first declared here"⟩] }
  | inverted {front back : List ClassMember} {low high : SourceChar} {span : Span}
      (distinct : grammar.ruleNames.Nodup)
      (split : grammar.classMembers = front ++ .range low high span :: back)
      (ordered : ∀ member ∈ front, member.IsOrdered) (inverted : high.value < low.value) :
      Blames grammar
        { kind := .grammar
          message := "inverted character range '" ++ String.ofList (Text.escapeAscii low.value) ++
            "-" ++ String.ofList (Text.escapeAscii high.value) ++ "'"
          span := some span
          help := some "write the lower bound of a range first" }

section

variable {grammar : Grammar} {maxDepth : Nat}

/-- A program has the rules of its grammar, all of them with a definition. -/
theorem names_compiled {program : Program} (compiled : grammar.compile maxDepth = .ok program) :
    program.rules.names = grammar.ruleNames ∧ program.rules.isComplete = true := by
  obtain ⟨named, rules_compiled, rfl⟩ := map_eq_ok_iff.mp compiled
  unfold compileRules at rules_compiled
  split at rules_compiled
  · cases rules_compiled
  · have all := mapM_eq_ok_iff.mp rules_compiled
    refine ⟨?_, by simp [Registry.isComplete]⟩
    simp only [Registry.names, List.map_map, ruleNames]
    clear rules_compiled compiled
    generalize grammar.rules = rules at all ⊢
    induction all with
    | nil => rfl
    | cons first _ ih =>
        obtain ⟨body, -, rfl⟩ := map_eq_ok_iff.mp first
        exact congrArg _ ih

/-- What is reported when a grammar does not compile is what the grammar is to blame for. -/
theorem blames_of_fault {fault : CompileFault} (failed : grammar.compile maxDepth = .error fault) :
    grammar.Blames fault.diagnostic := by
  cases found : findDuplicate? [] (grammar.rules.map Rule.name) with
  | some pair =>
      obtain ⟨first, second⟩ := pair
      rw [compile, compileRules, found] at failed
      cases failed
      obtain ⟨front, back, split, distinct, among, same⟩ :=
        @split_of_find_duplicate [] _ _ _ List.nodup_nil found
      obtain ⟨rules, others, rules_split, rfl, others_eq⟩ := List.map_eq_append_iff.mp split
      obtain ⟨rule, later, rfl, rfl, -⟩ := List.map_eq_cons_iff.mp others_eq
      obtain ⟨earlier, earlier_among, rfl⟩ := List.mem_map.mp among
      exact .duplicate rules_split (by simpa [Function.comp_def] using distinct) earlier_among same
  | none =>
      have unseen := @nodup_of_find_duplicate [] _ List.nodup_nil found
      have distinct : grammar.ruleNames.Nodup := by
        simpa [ruleNames, Function.comp_def] using unseen
      have judged := grammar.judged distinct maxDepth
      rw [failed] at judged
      obtain ⟨front, low, high, span, back, split, ordered, inverted, rfl⟩ := judged
      exact .inverted distinct split ordered inverted

/-- A grammar is to blame for a name that occurs twice or a range the wrong way round. -/
theorem Blames.reason {report : Diagnostic} (h : grammar.Blames report) :
    ¬ grammar.ruleNames.Nodup ∨
      ∃ low high span, .range low high span ∈ grammar.classMembers ∧ high.value < low.value := by
  cases h with
  | @duplicate front back rule earlier split _ among same =>
      refine .inl fun distinct => ?_
      rw [ruleNames, split, List.map_append, List.nodup_append] at distinct
      exact distinct.2.2 _ (List.mem_map_of_mem among) _ List.mem_cons_self same
  | @inverted front back low high span _ split _ inverted =>
      exact .inr ⟨low, high, span, by simp [split], inverted⟩

/-- A grammar that compiles has neither of the two faults. -/
theorem faultless_of_compiled {program : Program}
    (compiled : grammar.compile maxDepth = .ok program) :
    grammar.ruleNames.Nodup ∧ ∀ member ∈ grammar.classMembers, member.IsOrdered := by
  have distinct := (rules_of_compiled compiled).1
  have judged := grammar.judged distinct maxDepth
  rw [compiled] at judged
  exact ⟨distinct, judged⟩

end

end Grammar

/-- A grammar compiles under every interpretation or under none, and whatever keeps it from that is
reported alike. It fails exactly if two rules have the same name, or if a range of a class has its
bounds the wrong way round. What is reported is the first name that occurred before, with the place
of its first occurrence, or else the first such range. If it succeeds, the names are those of the
rules in order, and each of them is defined. Direct matching and matching step by step are two of
these interpretations. -/
theorem compile_in_every_interpretation {Term Other : Type} (ops : Interpretation Term)
    (others : Interpretation Other) (grammar : Grammar) (maxDepth : Nat) :
    grammar.compileIn .written = reported Program.rules (grammar.compile maxDepth) ∧
    grammar.compileIn .matching =
      reported (fun program => program.rules.map fun expr calls => Expr.runWith calls expr)
        (grammar.compile maxDepth) ∧
    ((∃ report, grammar.compileIn ops = .error report) ↔
      ¬ grammar.ruleNames.Nodup ∨
        ∃ low high span, .range low high span ∈ grammar.classMembers ∧ high.value < low.value) ∧
    (∀ report, grammar.compileIn ops = .error report →
      grammar.compileIn others = .error report ∧ grammar.Blames report) ∧
    ∀ rules, grammar.compileIn ops = .ok rules →
      (∃ rules', grammar.compileIn others = .ok rules') ∧
        rules.names = grammar.ruleNames ∧ rules.isComplete = true := by
  have compile_eq := Grammar.compile_in_eq ops grammar maxDepth
  have compile_eq' := Grammar.compile_in_eq others grammar maxDepth
  refine ⟨Grammar.compile_in_written grammar maxDepth, Grammar.compile_in_matching grammar maxDepth,
    ?_⟩
  cases result : grammar.compile maxDepth with
  | error fault =>
      rw [result] at compile_eq compile_eq'
      have blames := Grammar.blames_of_fault result
      refine ⟨⟨fun _ => blames.reason, fun _ => ⟨_, compile_eq⟩⟩, fun report failed => ?_,
        fun rules compiled => ?_⟩
      · cases compile_eq.symm.trans failed
        exact ⟨compile_eq', blames⟩
      · cases compile_eq.symm.trans compiled
  | ok program =>
      rw [result] at compile_eq compile_eq'
      obtain ⟨distinct, ordered⟩ := Grammar.faultless_of_compiled result
      obtain ⟨names_eq, complete⟩ := Grammar.names_compiled result
      refine ⟨⟨?_, ?_⟩, fun report failed => ?_, fun rules compiled => ?_⟩
      · rintro ⟨report, failed⟩
        cases compile_eq.symm.trans failed
      · rintro (repeated | ⟨low, high, span, among, inverted⟩)
        · exact absurd distinct repeated
        · exact absurd (ordered _ among) (Char.not_le.mpr inverted)
      · cases compile_eq.symm.trans failed
      · cases compile_eq.symm.trans compiled
        exact ⟨⟨_, compile_eq'⟩, (Registry.names_map _ _).trans names_eq,
          (Registry.is_complete_map _ _).trans complete⟩

/-- A repeated name is reported although a range of an earlier rule is the wrong way round. -/
example :
    Grammar.compileIn .written
        { rules :=
            [.sequence ⟨"a", ⟨0, 1⟩⟩
              [⟨none, false, .charClass false
                [.range ⟨'z', false, ⟨5, 6⟩⟩ ⟨'b', false, ⟨7, 8⟩⟩ ⟨5, 8⟩] ⟨4, 9⟩, none, ⟨4, 9⟩⟩]
              ⟨0, 10⟩,
              .union ⟨"a", ⟨11, 12⟩⟩ [⟨"a", ⟨15, 16⟩⟩] ⟨11, 17⟩]
          span := ⟨0, 17⟩ } =
      .error (CompileFault.duplicateRule ⟨"a", ⟨0, 1⟩⟩ ⟨"a", ⟨11, 12⟩⟩).diagnostic :=
  rfl

end TracedGrammar

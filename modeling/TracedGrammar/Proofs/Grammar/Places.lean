import TracedGrammar.Grammar.Text
import TracedGrammar.Proofs.Grammar.Compiled
import TracedGrammar.Proofs.Trace.Places

/-!
# Places do not matter for what a grammar means

Every node of a grammar document has its place in the text. Without the places a grammar is written
alike (`Grammar.display_erase_spans`), and it compiles alike: with the same fault, or to the same
program but for the places in it (`Grammar.compile_erase_spans`). The places in compiled programs
are those of single parts and cases (`Grammar.units_of_compile`). So grammars that differ in their
places only run alike, and trace alike but for the events that tell of places.

The theorem to read first is `same_in_any_layout`.
-/

namespace TracedGrammar

/-! ### Grammars without their places -/

/-- A name without its place. -/
def Ident.eraseSpans (ident : Ident) : Ident :=
  { ident with span := ⟨0, 0⟩ }

/-- A character without its place. -/
def SourceChar.eraseSpans (char : SourceChar) : SourceChar :=
  { char with span := ⟨0, 0⟩ }

/-- A class member without its places. -/
def ClassMember.eraseSpans : ClassMember → ClassMember
  | range low high _ => range low.eraseSpans high.eraseSpans ⟨0, 0⟩
  | single char => single char.eraseSpans

/-- An atom without its places. -/
def Atom.eraseSpans : Atom → Atom
  | reference target => reference target.eraseSpans
  | charClass inverted members _ => charClass inverted (members.map ClassMember.eraseSpans) ⟨0, 0⟩
  | literal quote chars _ => literal quote (chars.map SourceChar.eraseSpans) ⟨0, 0⟩

/-- A part without its places. -/
def Part.eraseSpans (part : Part) : Part :=
  { part with
    field := part.field.map Ident.eraseSpans
    atom := part.atom.eraseSpans
    span := ⟨0, 0⟩ }

/-- A rule without its places. -/
def Rule.eraseSpans : Rule → Rule
  | sequence name parts _ => sequence name.eraseSpans (parts.map Part.eraseSpans) ⟨0, 0⟩
  | union name cases _ => union name.eraseSpans (cases.map Ident.eraseSpans) ⟨0, 0⟩

/-- A grammar without its places. -/
def Grammar.eraseSpans (grammar : Grammar) : Grammar :=
  ⟨grammar.rules.map Rule.eraseSpans, ⟨0, 0⟩⟩

/-! ### Places are not written -/

@[simp] theorem Ident.written_erase_spans (ident : Ident) :
    ident.eraseSpans.written = ident.written :=
  rfl

@[simp] theorem SourceChar.written_erase_spans (char : SourceChar) :
    char.eraseSpans.written = char.written :=
  rfl

@[simp] theorem ClassMember.written_erase_spans (member : ClassMember) :
    member.eraseSpans.written = member.written := by
  cases member <;> rfl

@[simp] theorem Atom.written_erase_spans (atom : Atom) :
    atom.eraseSpans.written = atom.written := by
  cases atom <;> simp [eraseSpans, written, List.flatMap_map]

@[simp] theorem Part.written_erase_spans (part : Part) :
    part.eraseSpans.written = part.written := by
  obtain ⟨field, stringify, atom, suffix, span⟩ := part
  cases field <;> cases stringify <;> simp [eraseSpans, written]

@[simp] theorem Rule.written_erase_spans (rule : Rule) :
    rule.eraseSpans.written = rule.written := by
  cases rule <;> simp [eraseSpans, written, List.flatMap_map]

/-- Grammars that differ in their places only are written alike. -/
theorem Grammar.display_erase_spans (grammar : Grammar) :
    grammar.eraseSpans.display = grammar.display := by
  simp [eraseSpans, display, written, List.flatMap_map]

/-! ### Places are not compiled -/

namespace Expr

theorem unplaced_sequence (parts : List (Option String × Expr)) :
    (sequence parts).unplaced = sequence (parts.map (Prod.map id unplaced)) := by
  rw [sequence, sequence, List.foldl_map]
  exact (List.foldl_hom unplaced fun _ _ => rfl).symm

theorem unplaced_choice (alternatives : List Expr) :
    (choice alternatives).unplaced = choice (alternatives.map unplaced) := by
  rw [choice, choice, List.foldl_map]
  exact (List.foldl_hom unplaced fun _ _ => rfl).symm

theorem units_sequence {parts : List (Option String × Expr)}
    (units : ∀ part ∈ parts, part.2.PlacesUnits) : (sequence parts).PlacesUnits :=
  List.foldlRecOn parts _ trivial fun _ sound part among => ⟨sound, units part among⟩

theorem units_choice {alternatives : List Expr}
    (units : ∀ alternative ∈ alternatives, alternative.PlacesUnits) :
    (choice alternatives).PlacesUnits :=
  List.foldlRecOn alternatives _ trivial fun _ sound alternative among =>
    ⟨sound, units alternative among⟩

end Expr

/-- A fault without its places. -/
def CompileFault.eraseSpans : CompileFault → CompileFault
  | duplicateRule first second => duplicateRule first.eraseSpans second.eraseSpans
  | invertedRange low high _ => invertedRange low high ⟨0, 0⟩

/-- What is left of a result of compiling without places: a fault without its places, or a view of
what was compiled. -/
def resultSeen {α β : Type} (view : α → β) : Except CompileFault α → Except CompileFault β
  | .ok compiled => .ok (view compiled)
  | .error fault => .error fault.eraseSpans

section

variable {α β γ δ : Type}

theorem seen_eq_ok_iff {view : α → β} {result : Except CompileFault α} {seen : β} :
    resultSeen view result = .ok seen ↔
      ∃ compiled, result = .ok compiled ∧ view compiled = seen := by
  cases result <;> simp [resultSeen]

/-- What is left of a conversion of a list is a conversion of its items, with what is left of
theirs. -/
theorem seen_mapM (view : β → γ) (convert : α → Except CompileFault β) (items : List α) :
    resultSeen (List.map view) (items.mapM convert) =
      items.mapM fun item => resultSeen view (convert item) := by
  induction items with
  | nil => rfl
  | cons item items ih =>
      rw [List.mapM_cons, List.mapM_cons, ← ih]
      cases convert item with
      | error fault => rfl
      | ok result => cases items.mapM convert <;> rfl

/-- Items that are converted alike without their places are so in a list. -/
theorem seen_mapM_congr {view : β → γ} {convert : α → Except CompileFault β} {erase : α → α}
    (same : ∀ item, resultSeen view (convert (erase item)) = resultSeen view (convert item))
    (items : List α) :
    resultSeen (List.map view) ((items.map erase).mapM convert) =
      resultSeen (List.map view) (items.mapM convert) := by
  rw [seen_mapM, seen_mapM, List.mapM_map]
  exact congrArg (List.mapM · items) (funext same)

/-- Results that are alike without their places stay so if what is done to them only depends on what
is left of them. -/
theorem seen_map_congr {part : α → δ} {view : β → γ} {convert convert' : α → β}
    {result result' : Except CompileFault α}
    (same : resultSeen part result' = resultSeen part result)
    (respects : ∀ item item', part item' = part item →
      view (convert' item') = view (convert item)) :
    resultSeen view (result'.map convert') = resultSeen view (result.map convert) := by
  cases result with
  | error fault =>
      cases result' with
      | error fault' => exact congrArg Except.error (Except.error.inj same)
      | ok item' => cases same
  | ok item =>
      cases result' with
      | error fault' => cases same
      | ok item' => exact congrArg Except.ok (respects item item' (Except.ok.inj same))

end

theorem ClassMember.compile_erase_spans (member : ClassMember) :
    resultSeen id member.eraseSpans.compile = resultSeen id member.compile := by
  cases member with
  | single char => rfl
  | range low high span =>
      show resultSeen id (if high.value < low.value then _ else _) =
        resultSeen id (if high.value < low.value then _ else _)
      split <;> rfl

theorem CharClass.ofMembers_eq (inverted : Bool) (members : List ClassMember) :
    CharClass.ofMembers inverted members =
      (members.mapM ClassMember.compile).map fun items => ⟨inverted, items⟩ := by
  rw [ofMembers]
  cases members.mapM ClassMember.compile <;> rfl

/-- Members mean the same class without their places. -/
theorem CharClass.ofMembers_erase_spans (inverted : Bool) (members : List ClassMember) :
    resultSeen id (CharClass.ofMembers inverted (members.map ClassMember.eraseSpans)) =
      resultSeen id (CharClass.ofMembers inverted members) := by
  have items_same := seen_mapM_congr ClassMember.compile_erase_spans members
  rw [CharClass.ofMembers_eq, CharClass.ofMembers_eq]
  refine seen_map_congr items_same fun items items' eq => ?_
  rw [List.map_id, List.map_id] at eq
  rw [eq]

theorem Atom.compile_erase_spans (atom : Atom) :
    resultSeen Expr.unplaced atom.eraseSpans.compile = resultSeen Expr.unplaced atom.compile := by
  cases atom with
  | reference target => rfl
  | literal quote chars span =>
      have value_eq : literalValue (chars.map SourceChar.eraseSpans) = literalValue chars := by
        rw [literalValue, List.map_map]
        rfl
      simp only [eraseSpans, compile, value_eq]
  | charClass inverted members span =>
      have set_same := CharClass.ofMembers_erase_spans inverted members
      exact seen_map_congr set_same fun set set' eq => congrArg (Expr.charClass ·) eq

namespace Suffix

theorem unplaced_wrap (expr : Expr) (suffix : Option Suffix) :
    (wrap expr suffix).unplaced = wrap expr.unplaced suffix := by
  rcases suffix with _ | _ | _ | _ <;> rfl

end Suffix

namespace Part

/-- Without places the expression of a part only has its suffix and its mark around the atom's. -/
theorem unplaced_wrap (part : Part) (core : Expr) :
    (part.wrap core).unplaced =
      if part.stringify then .stringify (Suffix.wrap core.unplaced part.suffix)
      else Suffix.wrap core.unplaced part.suffix := by
  obtain ⟨field, stringify, atom, suffix, span⟩ := part
  rw [← Suffix.unplaced_wrap]
  cases stringify <;> cases atom <;> rfl

theorem compile_erase_spans (part : Part) :
    resultSeen Expr.unplaced part.eraseSpans.compile = resultSeen Expr.unplaced part.compile := by
  refine seen_map_congr part.atom.compile_erase_spans fun core core' eq => ?_
  rw [unplaced_wrap, unplaced_wrap, eq]
  rfl

theorem compileNamed_erase_spans (part : Part) :
    resultSeen (Prod.map id Expr.unplaced) part.eraseSpans.compileNamed =
      resultSeen (Prod.map id Expr.unplaced) part.compileNamed := by
  refine seen_map_congr part.compile_erase_spans fun expr expr' eq => ?_
  have name_eq : part.eraseSpans.field.map (·.name) = part.field.map (·.name) := by
    simp [eraseSpans, Function.comp_def, Ident.eraseSpans]
  rw [Prod.map_apply, Prod.map_apply, eq, name_eq]

end Part

namespace Rule

theorem compile_sequence_eq (name : Ident) (parts : List Part) (span : Span) :
    compile (.sequence name parts span) =
      (parts.mapM Part.compileNamed).map fun named => .tagged name.name (.sequence named) := by
  rw [compile]
  cases parts.mapM Part.compileNamed <;> rfl

/-- A rule compiles to the same expression without places, whatever places it has. -/
theorem compile_erase_spans (rule : Rule) :
    resultSeen Expr.unplaced rule.eraseSpans.compile = resultSeen Expr.unplaced rule.compile := by
  cases rule with
  | sequence name parts span =>
      rw [eraseSpans, compile_sequence_eq, compile_sequence_eq]
      refine seen_map_congr (seen_mapM_congr Part.compileNamed_erase_spans parts)
        fun named named' eq => ?_
      show Expr.tagged _ (Expr.sequence named').unplaced = .tagged _ (Expr.sequence named).unplaced
      rw [Expr.unplaced_sequence, Expr.unplaced_sequence]
      exact congrArg (fun named => Expr.tagged name.name (.sequence named)) eq
  | union name cases span =>
      simp only [eraseSpans, compile, resultSeen, Expr.unplaced, Expr.unplaced_choice, List.map_map]
      rfl

@[simp] theorem name_erase_spans (rule : Rule) : rule.eraseSpans.name = rule.name.eraseSpans := by
  cases rule <;> rfl

end Rule

namespace Grammar

theorem find_duplicate_erase_spans (earlier idents : List Ident) :
    findDuplicate? (earlier.map Ident.eraseSpans) (idents.map Ident.eraseSpans) =
      (findDuplicate? earlier idents).map (Prod.map Ident.eraseSpans Ident.eraseSpans) := by
  induction idents generalizing earlier with
  | nil => rfl
  | cons ident idents ih =>
      have found_eq : (earlier.map Ident.eraseSpans).find? (·.name == ident.eraseSpans.name) =
          (earlier.find? (·.name == ident.name)).map Ident.eraseSpans :=
        List.find?_map ..
      rw [List.map_cons, findDuplicate?, findDuplicate?, found_eq]
      cases earlier.find? (·.name == ident.name) with
      | some first => rfl
      | none =>
          have rest := ih (earlier ++ [ident])
          rw [List.map_append] at rest
          exact rest

theorem compileRules_erase_spans (grammar : Grammar) :
    resultSeen (List.map (Prod.map id Expr.unplaced)) grammar.eraseSpans.compileRules =
      resultSeen (List.map (Prod.map id Expr.unplaced)) grammar.compileRules := by
  have names_eq : grammar.eraseSpans.rules.map Rule.name =
      (grammar.rules.map Rule.name).map Ident.eraseSpans := by
    simp [eraseSpans, Function.comp_def]
  have found_eq := find_duplicate_erase_spans [] (grammar.rules.map Rule.name)
  rw [compileRules, compileRules, names_eq]
  rw [List.map_nil] at found_eq
  rw [found_eq]
  cases findDuplicate? [] (grammar.rules.map Rule.name) with
  | some found => rfl
  | none =>
      refine seen_mapM_congr (fun rule => ?_) grammar.rules
      refine seen_map_congr rule.compile_erase_spans fun body body' eq => ?_
      rw [Prod.map_apply, Prod.map_apply, eq, Rule.name_erase_spans]
      rfl

theorem unplaced_slots (rules : List (String × Expr)) :
    ((rules.map fun (name, expr) => (name, some expr)).map fun slot =>
        (slot.1, slot.2.map Expr.unplaced)) =
      (rules.map (Prod.map id Expr.unplaced)).map fun (name, expr) => (name, some expr) := by
  rw [List.map_map, List.map_map]
  rfl

/-- A grammar compiles as it does without its places: with the same fault, or to the same program
but for the places in it. -/
theorem compile_erase_spans (grammar : Grammar) (maxDepth : Nat) :
    resultSeen Program.unplaced (grammar.eraseSpans.compile maxDepth) =
      resultSeen Program.unplaced (grammar.compile maxDepth) := by
  refine seen_map_congr grammar.compileRules_erase_spans fun rules rules' eq => ?_
  simp only [Program.unplaced, unplaced_slots, eq]

end Grammar

/-! ### Which parts have places -/

theorem Atom.units_of_compile {atom : Atom} {core : Expr} (compiled : atom.compile = .ok core) :
    core.PlacesUnits ∧ core.unplaced.IsUnit := by
  cases atom with
  | reference target =>
      cases compiled
      exact ⟨⟨⟨rfl, rfl⟩, trivial⟩, rfl, rfl⟩
  | literal quote chars span =>
      cases compiled
      exact ⟨trivial, rfl, rfl⟩
  | charClass inverted members span =>
      obtain ⟨set, -, rfl⟩ := map_eq_ok_iff.mp compiled
      exact ⟨trivial, rfl, rfl⟩

namespace Suffix

variable {expr : Expr} {suffix : Option Suffix}

theorem units_wrap (units : expr.PlacesUnits) : (wrap expr suffix).PlacesUnits := by
  rcases suffix with _ | _ | _ | _ <;> exact units

theorem is_unit_wrap (unit : expr.unplaced.IsUnit) : (wrap expr suffix).unplaced.IsUnit := by
  rcases suffix with _ | _ | _ | _
  · exact unit
  all_goals exact ⟨rfl, rfl⟩

end Suffix

theorem Part.units_of_compile {part : Part} {expr : Expr} (compiled : part.compile = .ok expr) :
    expr.PlacesUnits := by
  obtain ⟨core, atom_compiled, rfl⟩ := map_eq_ok_iff.mp compiled
  obtain ⟨field, stringify, atom, suffix, span⟩ := part
  obtain ⟨units, unit⟩ := Atom.units_of_compile atom_compiled
  have marked : (if stringify then .stringify (Suffix.wrap core suffix)
      else Suffix.wrap core suffix).PlacesUnits ∧
        (if stringify then .stringify (Suffix.wrap core suffix)
          else Suffix.wrap core suffix).unplaced.IsUnit := by
    cases stringify with
    | true => exact ⟨Suffix.units_wrap units, rfl, rfl⟩
    | false => exact ⟨Suffix.units_wrap units, Suffix.is_unit_wrap unit⟩
  cases atom with
  | reference target => exact marked.1
  | charClass inverted members span => exact marked.symm
  | literal quote chars span => exact marked.symm

theorem Rule.units_of_compile {rule : Rule} {body : Expr} (compiled : rule.compile = .ok body) :
    body.PlacesUnits := by
  cases rule with
  | sequence name parts span =>
      obtain ⟨converted, all, rfl⟩ := Grammar.compile_sequence compiled
      refine Expr.units_sequence fun named among => ?_
      obtain ⟨part, -, converts⟩ := Grammar.exists_part all among
      obtain ⟨expr, part_compiled, rfl⟩ := map_eq_ok_iff.mp converts
      exact Part.units_of_compile part_compiled
  | union name cases span =>
      cases compiled
      refine Expr.units_choice fun alternative among => ?_
      obtain ⟨target, -, rfl⟩ := List.mem_map.mp among
      exact ⟨⟨rfl, rfl⟩, trivial⟩

/-- The places in a compiled program are those of single parts and cases. -/
theorem Grammar.units_of_compile {grammar : Grammar} {maxDepth : Nat} {program : Program}
    (compiled : grammar.compile maxDepth = .ok program) : program.PlacesUnits := by
  intro name body defined
  obtain ⟨rule, -, rule_compiled⟩ := exists_rule compiled defined
  exact Rule.units_of_compile rule_compiled

/-! ### Grammars that differ in their places only -/

namespace CompileFault

variable (fault : CompileFault)

@[simp] theorem kind_erase_spans : fault.eraseSpans.diagnostic.kind = fault.diagnostic.kind := by
  cases fault <;> rfl

@[simp] theorem message_erase_spans :
    fault.eraseSpans.diagnostic.message = fault.diagnostic.message := by
  cases fault <;> rfl

end CompileFault

/-- Programs that are the same but for their places run alike, and their sessions come to the same
but for the events that tell of places. -/
theorem Program.alike_of_unplaced_eq {program program' : Program} (placed : program.PlacesUnits)
    (placed' : program'.PlacesUnits) (same : program'.unplaced = program.unplaced)
    (start text : String) :
    program'.run start text = program.run start text ∧
      (program'.session start text).map
          (Prod.map Event.withoutPlaces id ∘ Session.transcript) =
        (program.session start text).map
          (Prod.map Event.withoutPlaces id ∘ Session.transcript) := by
  constructor
  · rw [← run_unplaced placed, ← run_unplaced placed', same]
  · rw [← transcript_unplaced placed, ← transcript_unplaced placed', same]

/-- The layout of a grammar does not matter. Two grammars that differ in their places only are both
refused, with reports of the same kind and with the same message, or they both compile. Then every
run of a rule on a text has the same result for both: the same outcome at the same offset, or the
same fault. The sessions return the same events but for those that tell of places, and end with the
same verdict or the same report. -/
theorem same_in_any_layout {grammar other : Grammar}
    (same : other.eraseSpans = grammar.eraseSpans) (maxDepth : Nat) :
    (∃ fault fault', grammar.compile maxDepth = .error fault ∧
      other.compile maxDepth = .error fault' ∧
      fault'.diagnostic.kind = fault.diagnostic.kind ∧
      fault'.diagnostic.message = fault.diagnostic.message) ∨
    ∃ program program', grammar.compile maxDepth = .ok program ∧
      other.compile maxDepth = .ok program' ∧
      ∀ start text, program'.run start text = program.run start text ∧
        (program'.session start text).map
            (Prod.map Event.withoutPlaces id ∘ Session.transcript) =
          (program.session start text).map
            (Prod.map Event.withoutPlaces id ∘ Session.transcript) := by
  have seen : resultSeen Program.unplaced (other.compile maxDepth) =
      resultSeen Program.unplaced (grammar.compile maxDepth) := by
    rw [← other.compile_erase_spans, same, grammar.compile_erase_spans]
  cases compiled : grammar.compile maxDepth with
  | error fault =>
      cases compiled' : other.compile maxDepth with
      | error fault' =>
          rw [compiled, compiled'] at seen
          have fault_eq : fault'.eraseSpans = fault.eraseSpans := Except.error.inj seen
          refine .inl ⟨fault, fault', rfl, rfl, ?_, ?_⟩
          · rw [← fault'.kind_erase_spans, fault_eq, fault.kind_erase_spans]
          · rw [← fault'.message_erase_spans, fault_eq, fault.message_erase_spans]
      | ok program' =>
          rw [compiled, compiled'] at seen
          cases seen
  | ok program =>
      rw [compiled] at seen
      obtain ⟨program', compiled', unplaced_eq⟩ := seen_eq_ok_iff.mp seen
      refine .inr ⟨program, program', rfl, compiled', fun start text => ?_⟩
      exact Program.alike_of_unplaced_eq (Grammar.units_of_compile compiled)
        (Grammar.units_of_compile compiled') unplaced_eq start text

/-- Items are read alike by a grammar that has all its places at the start of the text. -/
theorem item_in_other_layout : ∃ program program',
    itemGrammar.eraseSpans.eraseSpans = itemGrammar.eraseSpans ∧
      itemGrammar.compile 9 = .ok program ∧ itemGrammar.eraseSpans.compile 9 = .ok program' ∧
      program'.run "item" "ab?c!" = .ok (.matched itemValue, 5) ∧
      (program'.session "item" "ab?c!").map
          (Prod.map Event.withoutPlaces id ∘ Session.transcript) =
        (program.session "item" "ab?c!").map
          (Prod.map Event.withoutPlaces id ∘ Session.transcript) := by
  have same : itemGrammar.eraseSpans.eraseSpans = itemGrammar.eraseSpans := rfl
  rcases same_in_any_layout same 9 with
    ⟨fault, _, refused, -⟩ | ⟨program, program', compiled, compiled', alike⟩
  · cases refused
  · obtain ⟨run_eq, session_eq⟩ := alike "item" "ab?c!"
    exact ⟨program, program', same, compiled, compiled', run_eq.trans (run_item compiled),
      session_eq⟩

end TracedGrammar

import TracedGrammar.Proofs.Grammar.Compiled

/-!
# Compiling for an interpretation

An expression can be understood as more than a syntax tree. An `Interpretation` has terms of its
own, and an operation on them for everything that a grammar is made of; direct matching is one whose
terms are matchers. `Grammar.compileIn` builds the terms of all rules in two phases: it declares the
names first, then defines each rule, and stops at the first fault of either phase.

No operation of an interpretation can fail. So compiling for one of them comes to the same as
compiling to syntax and building terms from that (`Grammar.compile_in_eq`).
-/

namespace TracedGrammar

/-- What the operations that grammars are made of do to terms. -/
structure Interpretation (Term : Type) where
  literal (text : String) : Term
  charClass (set : CharClass) : Term
  stringify (body : Term) : Term
  optional (body : Term) : Term
  zeroOrMore (body : Term) : Term
  oneOrMore (body : Term) : Term
  call (rule : String) : Term
  empty : Term
  append (before part : Term) : Term
  appendNamed (before : Term) (field : String) (part : Term) : Term
  never : Term
  orElse (before alternative : Term) : Term
  tagged (rule : String) (body : Term) : Term
  untagged (rule : String) (body : Term) : Term
  located (span : Span) (body : Term) : Term

namespace Interpretation

/-- Terms that are written down, to be matched step by step. -/
def written : Interpretation Expr where
  literal := .literal
  charClass := .charClass
  stringify := .stringify
  optional := .optional
  zeroOrMore := .zeroOrMore
  oneOrMore := .oneOrMore
  call := .call
  empty := .empty
  append before part := .append before none part
  appendNamed before field part := .append before (some field) part
  never := .never
  orElse := .orElse
  tagged := .tagged
  untagged := .untagged
  located := .located

/-- Terms that match at a context, for a meaning of the calls of rules. -/
def matching : Interpretation ((String → Matcher) → Matcher) where
  literal text _ context :=
    match context.cursor.eatLiteral? text with
    | some cursor => .ok (.matched (.text text)) (context.restore cursor)
    | none => .ok (.failed none) context
  charClass set _ context :=
    match context.cursor.eatChar? set.accepts with
    | some (char, cursor) =>
        .ok (.matched (.text (String.singleton char))) (context.restore cursor)
    | none => .ok (.failed none) context
  stringify body calls context :=
    match body calls context with
    | .ok (.matched _) after => .ok (.matched (.text (context.cursor.textTo after.cursor))) after
    | reply => reply
  optional body calls context :=
    match body calls context with
    | .ok (.failed _) after => .ok (.matched .absent) (after.restore context.cursor)
    | reply => reply
  zeroOrMore body calls context :=
    Matcher.repeatItems (body calls) false context.cursor.rest [] context
  oneOrMore body calls context :=
    Matcher.repeatItems (body calls) true context.cursor.rest [] context
  call rule calls := calls rule
  empty _ context := .ok (.matched (.record .empty)) context
  append before part calls context :=
    match before calls context with
    | .ok (.matched value) middle =>
        match part calls middle with
        | .ok (.matched _) after => .ok (.matched value) after
        | .ok (.failed _) after => .ok (.failed (some value.toRecord)) after
        | .error fault after => .error fault after
    | reply => reply
  appendNamed before field part calls context :=
    match before calls context with
    | .ok (.matched value) middle =>
        match part calls middle with
        | .ok (.matched item) after =>
            .ok (.matched (.record (value.toRecord.insert field item))) after
        | .ok (.failed _) after => .ok (.failed (some value.toRecord)) after
        | .error fault after => .error fault after
    | reply => reply
  never _ context := .ok (.failed none) context
  orElse before alternative calls context :=
    match before calls context with
    | .ok (.failed _) middle =>
        match alternative calls (middle.restore context.cursor) with
        | .ok (.failed captured) after => .ok (.failed captured) (after.restore context.cursor)
        | reply => reply
    | reply => reply
  tagged rule body calls context :=
    match body calls context with
    | .ok (.matched value) after =>
        .ok (.matched (.record (value.asRuleRecord rule ⟨context.offset, after.offset⟩))) after
    | .ok (.failed captured) after =>
        .ok (.failed (captured.map ({ · with tag := some rule }))) after
    | .error fault after => .error fault after
  untagged _ body := body
  located _ body := body

variable {Term : Type} (ops : Interpretation Term)

/-- A sequence with one more part. -/
def appendPart (before : Term) (field : Option String) (part : Term) : Term :=
  match field with
  | some name => ops.appendNamed before name part
  | none => ops.append before part

/-- The term that an expression builds. -/
def build : Expr → Term
  | .literal text => ops.literal text
  | .charClass set => ops.charClass set
  | .stringify body => ops.stringify (build body)
  | .optional body => ops.optional (build body)
  | .repeated false body => ops.zeroOrMore (build body)
  | .repeated true body => ops.oneOrMore (build body)
  | .call rule => ops.call rule
  | .empty => ops.empty
  | .append before field part => ops.appendPart (build before) field (build part)
  | .never => ops.never
  | .orElse before alternative => ops.orElse (build before) (build alternative)
  | .tagged rule body => ops.tagged rule (build body)
  | .untagged rule body => ops.untagged rule (build body)
  | .located span body => ops.located span (build body)

/-- Writing an expression down gives the expression. -/
theorem build_written (expr : Expr) : written.build expr = expr := by
  induction expr with
  | repeated atLeastOne body ih => cases atLeastOne <;> exact congrArg _ ih
  | append before field part ih ih' =>
      rw [build, ih, ih']
      cases field <;> rfl
  | orElse before alternative ih ih' => exact congrArg₂ Expr.orElse ih ih'
  | stringify body ih | optional body ih | tagged rule body ih | untagged rule body ih
  | located span body ih => exact congrArg _ ih
  | literal | charClass | call | empty | never => rfl

/-- The matcher that an expression builds is direct matching of it. -/
theorem build_matching (expr : Expr) :
    matching.build expr = fun calls => Expr.runWith calls expr := by
  funext calls context
  induction expr generalizing context with
  | repeated atLeastOne body ih =>
      have same : matching.build body calls = Expr.runWith calls body := funext ih
      cases atLeastOne <;> rw [build, Expr.runWith, ← same] <;> rfl
  | append before field part ih ih' =>
      have same : matching.build part calls = Expr.runWith calls part := funext ih'
      rw [Expr.runWith, ← ih, ← same]
      cases field <;> rfl
  | orElse before alternative ih ih' =>
      have same : matching.build alternative calls = Expr.runWith calls alternative := funext ih'
      rw [Expr.runWith, ← ih, ← same]
      rfl
  | stringify body ih | optional body ih | tagged rule body ih | untagged rule body ih
  | located span body ih =>
      rw [Expr.runWith, ← ih]
      rfl
  | literal | charClass | call | empty | never => rfl

end Interpretation

/-! ### Building terms in two phases -/

/-- The registry with every definition turned into another. -/
def Registry.map {α β : Type} (view : α → β) (registry : Registry α) : Registry β :=
  ⟨registry.slots.map fun (name, definition) => (name, definition.map view)⟩

theorem Registry.names_map {α β : Type} (view : α → β) (registry : Registry α) :
    (registry.map view).names = registry.names := by
  simp [map, names]

theorem Registry.is_complete_map {α β : Type} (view : α → β) (registry : Registry α) :
    (registry.map view).isComplete = registry.isComplete := by
  simp [map, isComplete, Function.comp_def]

/-- The class with one more member, unless that is a range the wrong way round. -/
def ClassMember.addTo (set : CharClass) : ClassMember → Except Diagnostic CharClass
  | single char => .ok (set.add (.single char.value))
  | range low high span =>
      if high.value < low.value then
        .error (CompileFault.invertedRange low.value high.value span).diagnostic
      else .ok (set.add (.range low.value high.value))

namespace Interpretation

variable {Term : Type} (ops : Interpretation Term)

/-- The term of an atom. -/
def compileAtom : Atom → Except Diagnostic Term
  | .reference target => .ok (ops.located target.span (ops.call target.name))
  | .charClass inverted members _ => do
      let start := if inverted then CharClass.empty.negate else .empty
      return ops.charClass (← members.foldlM ClassMember.addTo start)
  | .literal _ chars _ => .ok (ops.literal (literalValue chars))

/-- A term under a suffix. -/
def suffixed (term : Term) : Option Suffix → Term
  | none => term
  | some .oneOrMore => ops.oneOrMore term
  | some .zeroOrMore => ops.zeroOrMore term
  | some .optional => ops.optional term

/-- The term of a part whose atom has the given one. -/
def wrapped (part : Part) (core : Term) : Term :=
  let repeated := ops.suffixed core part.suffix
  let marked := if part.stringify then ops.stringify repeated else repeated
  match part.atom with
  | .reference _ => marked
  | .charClass .. | .literal .. => ops.located part.span marked

/-- A sequence with the term of one more part. -/
def addPart (before : Term) (part : Part) : Except Diagnostic Term := do
  let core ← ops.compileAtom part.atom
  return ops.appendPart before (part.field.map (·.name)) (ops.wrapped part core)

/-- The term of a rule. -/
def compileRule : Rule → Except Diagnostic Term
  | .sequence name parts _ => do
      return ops.tagged name.name (← parts.foldlM ops.addPart ops.empty)
  | .union name cases _ =>
      .ok <| ops.untagged name.name <| cases.foldl
        (fun before target => ops.orElse before (ops.located target.span (ops.call target.name)))
        ops.never

/-- The registry with the term of one more rule. -/
def defineRule (registry : Registry Term) (rule : Rule) : Except Diagnostic (Registry Term) := do
  let term ← ops.compileRule rule
  (registry.define rule.name.name term).mapError Registry.Misuse.diagnostic

end Interpretation

namespace Grammar

variable {Term : Type}

/-- The registry with further names declared, unless one of them occurred before. -/
def declareNames (registry : Registry Term) (earlier : List Ident) :
    List Ident → Except Diagnostic (Registry Term)
  | [] => .ok registry
  | ident :: idents =>
      match earlier.find? (·.name == ident.name) with
      | some first => .error (CompileFault.duplicateRule first ident).diagnostic
      | none => do
          let registry ← (registry.declare ident.name).mapError Registry.Misuse.diagnostic
          declareNames registry (earlier ++ [ident]) idents

/-- The terms of the rules: all names are declared before the first rule is defined. -/
def compileIn (ops : Interpretation Term) (grammar : Grammar) :
    Except Diagnostic (Registry Term) := do
  let registry ← declareNames .empty [] (grammar.rules.map Rule.name)
  grammar.rules.foldlM ops.defineRule registry

end Grammar

/-! ### Both phases come to the same -/

/-- A result of compiling with its fault reported, and with a view of what was compiled. -/
def CompileFault.reported {α β : Type} (view : α → β) :
    Except CompileFault α → Except Diagnostic β
  | .ok compiled => .ok (view compiled)
  | .error fault => .error fault.diagnostic

open CompileFault (reported)

/-- Adding the items of a list one by one adds what they are converted to, up to the first fault. -/
theorem foldlM_eq_reported {α β γ : Type} {step : γ → α → Except Diagnostic γ}
    {convert : α → Except CompileFault β} {add : γ → β → γ}
    (each : ∀ before item, step before item = reported (add before) (convert item))
    (items : List α) (before : γ) :
    items.foldlM step before = reported (fun results => results.foldl add before)
      (items.mapM convert) := by
  induction items generalizing before with
  | nil => rfl
  | cons item items ih =>
      rw [List.foldlM_cons, List.mapM_cons, each]
      cases convert item with
      | error fault => rfl
      | ok result =>
          show items.foldlM step (add before result) = _
          rw [ih]
          cases items.mapM convert <;> rfl

namespace Interpretation

variable {Term : Type} (ops : Interpretation Term)

theorem build_sequence (parts : List (Option String × Expr)) :
    ops.build (.sequence parts) =
      parts.foldl (fun before part => ops.appendPart before part.1 (ops.build part.2)) ops.empty :=
  (List.foldl_hom ops.build fun _ _ => rfl).symm

theorem build_choice (alternatives : List Expr) :
    ops.build (.choice alternatives) =
      alternatives.foldl (fun before next => ops.orElse before (ops.build next)) ops.never :=
  (List.foldl_hom ops.build fun _ _ => rfl).symm

theorem build_wrap (part : Part) (core : Expr) :
    ops.build (part.wrap core) = ops.wrapped part (ops.build core) := by
  obtain ⟨field, stringify, atom, suffix, span⟩ := part
  have suffixed : ops.build (Suffix.wrap core suffix) = ops.suffixed (ops.build core) suffix := by
    rcases suffix with _ | _ | _ | _ <;> rfl
  cases atom <;> cases stringify <;> simp [Part.wrap, wrapped, build, suffixed]

/-- Members are added to a class up to the first range the wrong way round. -/
theorem add_members_eq (members : List ClassMember) (set : CharClass) :
    members.foldlM ClassMember.addTo set =
      reported (fun items => items.foldl CharClass.add set) (members.mapM ClassMember.compile) := by
  refine foldlM_eq_reported (fun before member => ?_) members set
  cases member with
  | single char => rfl
  | range low high span =>
      rw [ClassMember.addTo, ClassMember.compile]
      split <;> rfl

theorem foldl_add (items : List ClassItem) (set : CharClass) :
    items.foldl CharClass.add set = { set with items := set.items ++ items } := by
  induction items generalizing set with
  | nil => rw [List.append_nil]; rfl
  | cons item items ih => rw [List.foldl_cons, ih]; simp [CharClass.add]

theorem compile_atom_eq (atom : Atom) :
    ops.compileAtom atom = reported ops.build atom.compile := by
  cases atom with
  | reference target | literal quote chars span => rfl
  | charClass inverted members span =>
      rw [compileAtom, Atom.compile, add_members_eq, CharClass.ofMembers]
      cases members.mapM ClassMember.compile with
      | error fault => rfl
      | ok items =>
          show Except.ok (ops.charClass (items.foldl CharClass.add _)) = _
          rw [foldl_add]
          cases inverted <;> rfl

theorem add_part_eq (before : Term) (part : Part) :
    ops.addPart before part =
      reported (fun named => ops.appendPart before named.1 (ops.build named.2))
        part.compileNamed := by
  rw [addPart, compile_atom_eq, Part.compileNamed, Part.compile]
  cases part.atom.compile with
  | error fault => rfl
  | ok core =>
      show Except.ok (ops.appendPart before _ (ops.wrapped part (ops.build core))) = _
      rw [← build_wrap]
      rfl

theorem compile_rule_eq (rule : Rule) :
    ops.compileRule rule = reported ops.build rule.compile := by
  cases rule with
  | sequence name parts span =>
      rw [compileRule, Rule.compile, foldlM_eq_reported ops.add_part_eq]
      cases parts.mapM Part.compileNamed with
      | error fault => rfl
      | ok named =>
          show _ = Except.ok (ops.tagged name.name (ops.build (.sequence named)))
          rw [build_sequence]
          rfl
  | union name targets span =>
      show _ = Except.ok (ops.untagged name.name (ops.build (.choice _)))
      rw [build_choice, List.foldl_map]
      rfl

end Interpretation

namespace Registry

variable {Term : Type}

/-- A name that is not declared yet can be declared. -/
theorem declare_of_new {registry : Registry Term} {name : String} (new : name ∉ registry.names) :
    registry.declare name = .ok ⟨registry.slots ++ [(name, none)]⟩ := by
  rw [declare, isDeclared, lookup_eq_none_iff.mpr new]
  rfl

theorem fill_append {front back : List (String × Option Term)} {name : String} (term : Term)
    (new : name ∉ front.map (·.1)) :
    fill name term (front ++ (name, none) :: back) = front ++ (name, some term) :: back := by
  induction front with
  | nil => exact if_pos rfl
  | cons slot front ih =>
      rw [List.map_cons, List.mem_cons, not_or] at new
      rw [List.cons_append, fill, if_neg (Ne.symm new.1), ih new.2]
      rfl

/-- A name that is declared and not defined yet can be defined. -/
theorem define_of_declared {front back : List (String × Option Term)} {name : String} (term : Term)
    (new : name ∉ (⟨front⟩ : Registry Term).names) :
    Registry.define ⟨front ++ (name, none) :: back⟩ name term =
      .ok ⟨front ++ (name, some term) :: back⟩ := by
  have undefined : (front ++ (name, none) :: back).lookup name = some none := by
    rw [List.lookup_append, lookup_eq_none_iff.mpr new, List.lookup_cons_self]
    rfl
  rw [define, undefined]
  show Except.ok (⟨fill name term _⟩ : Registry Term) = _
  rw [fill_append term new]

end Registry

namespace Grammar

variable {Term : Type} (ops : Interpretation Term)

/-- A registry in which names are declared and not yet defined. -/
def declared (idents : List Ident) : Registry Term :=
  ⟨idents.map fun ident => (ident.name, none)⟩

/-- Names are declared one after the other up to the first that occurred before. -/
theorem declare_names_eq (earlier idents : List Ident) :
    declareNames (declared earlier : Registry Term) earlier idents =
      match findDuplicate? earlier idents with
      | some (first, second) => .error (CompileFault.duplicateRule first second).diagnostic
      | none => .ok (declared (earlier ++ idents)) := by
  induction idents generalizing earlier with
  | nil => rw [List.append_nil]; rfl
  | cons ident idents ih =>
      rw [declareNames, findDuplicate?]
      cases found : earlier.find? (·.name == ident.name) with
      | some first => rfl
      | none =>
          have new : ident.name ∉ (declared earlier : Registry Term).slots.map (·.1) := by
            intro among
            obtain ⟨first, among_earlier, same⟩ := by simpa [declared] using among
            exact List.find?_eq_none.mp found first among_earlier (beq_iff_eq.mpr same)
          have accepted : (declared earlier : Registry Term).declare ident.name =
              .ok (declared (earlier ++ [ident])) := by
            refine (Registry.declare_of_new new).trans ?_
            simp [declared]
          have rest := ih (earlier ++ [ident])
          rw [List.append_assoc] at rest
          show Except.bind ((Registry.declare _ ident.name).mapError _) _ = _
          rw [accepted]
          exact rest

/-- Rules that are declared are defined one after the other up to the first fault. -/
theorem define_rules_eq (rules : List Rule) (front : List (String × Option Term))
    (distinct : (front.map (·.1) ++ rules.map (·.name.name)).Nodup) :
    rules.foldlM ops.defineRule ⟨front ++ rules.map fun rule => (rule.name.name, none)⟩ =
      reported
        (fun named => ⟨front ++ named.map fun (name, expr) => (name, some (ops.build expr))⟩)
        (rules.mapM fun rule => rule.compile.map fun expr => (rule.name.name, expr)) := by
  induction rules generalizing front with
  | nil => rfl
  | cons rule rules ih =>
      rw [List.foldlM_cons, List.mapM_cons, List.map_cons, Interpretation.defineRule,
        Interpretation.compile_rule_eq]
      cases rule.compile with
      | error fault => rfl
      | ok body =>
          have new : rule.name.name ∉ front.map (·.1) := fun among =>
            (List.nodup_append.mp distinct).2.2 _ among _ List.mem_cons_self rfl
          show Except.bind ((Registry.define _ rule.name.name (ops.build body)).mapError _) _ = _
          rw [Registry.define_of_declared _ new]
          have rest := ih (front ++ [(rule.name.name, some (ops.build body))])
            (by simpa using distinct)
          rw [List.append_assoc] at rest
          refine rest.trans ?_
          cases rules.mapM fun rule => rule.compile.map fun expr => (rule.name.name, expr) with
          | error fault => rfl
          | ok named =>
              show Except.ok (⟨_⟩ : Registry Term) = Except.ok ⟨_⟩
              rw [List.append_assoc]
              rfl

/-- Compiling for an interpretation builds terms from what the grammar compiles to, and reports the
fault that keeps it from being compiled. -/
theorem compile_in_eq (grammar : Grammar) (maxDepth : Nat) :
    grammar.compileIn ops =
      reported (fun program => program.rules.map ops.build) (grammar.compile maxDepth) := by
  have names := @declare_names_eq Term [] (grammar.rules.map Rule.name)
  show Except.bind (declareNames (declared []) [] _) _ = _
  rw [names, compile, compileRules]
  cases unseen : findDuplicate? [] (grammar.rules.map Rule.name) with
  | some pair => rfl
  | none =>
      have distinct := @nodup_of_find_duplicate [] _ List.nodup_nil unseen
      have defined := define_rules_eq ops grammar.rules []
        (by simpa [Function.comp_def] using distinct)
      show grammar.rules.foldlM ops.defineRule (declared _) = _
      rw [declared, List.nil_append, List.map_map]
      refine defined.trans ?_
      show _ = reported _ (Except.map _ (grammar.rules.mapM _))
      cases grammar.rules.mapM fun rule => rule.compile.map fun expr => (rule.name.name, expr) with
      | error fault => rfl
      | ok named =>
          show Except.ok (⟨_⟩ : Registry Term) = Except.ok ⟨_⟩
          rw [List.map_map]
          rfl

/-- Compiling for expressions that are written down gives the rules of the program. -/
theorem compile_in_written (grammar : Grammar) (maxDepth : Nat) :
    grammar.compileIn .written = reported Program.rules (grammar.compile maxDepth) := by
  have same : Interpretation.written.build = id := funext Interpretation.build_written
  rw [compile_in_eq _ grammar maxDepth, same]
  simp [Registry.map]

/-- Compiling for matchers gives direct matching of the rules of the program. -/
theorem compile_in_matching (grammar : Grammar) (maxDepth : Nat) :
    grammar.compileIn .matching =
      reported (fun program => program.rules.map fun expr calls => Expr.runWith calls expr)
        (grammar.compile maxDepth) := by
  have same : Interpretation.matching.build = fun expr calls => Expr.runWith calls expr :=
    funext Interpretation.build_matching
  rw [compile_in_eq _ grammar maxDepth, same]

end Grammar

end TracedGrammar

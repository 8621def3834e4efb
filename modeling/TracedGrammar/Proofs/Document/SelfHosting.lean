import TracedGrammar.Proofs.Document.RoundTrip

/-!
# The grammar of grammar documents hosts itself

The grammar of grammar documents is written down twice: as a document (`Meta.text`), and as
expressions that can be run before any document has been read (`Meta.program`). The document is what
one syntax tree is written as, so it is read as that tree, which compiles to those expressions with
places around some of them. Places do not matter for matching, so the compiled program reads every
document as the one built by hand does (`self_hosting`).
-/

namespace TracedGrammar

/-! ### Nodes without places -/

/-- A name by itself. -/
def Ident.ofName (name : String) : Ident :=
  ⟨name, ⟨0, 0⟩⟩

/-- The characters that a text spells, where a backslash escapes the one after it. -/
def SourceChar.spelled : List Char → List SourceChar
  | [] => []
  | '\\' :: char :: chars => ⟨char, true, ⟨0, 0⟩⟩ :: spelled chars
  | char :: chars => ⟨char, false, ⟨0, 0⟩⟩ :: spelled chars

namespace ClassMember

/-- The members of a class that a text spells. -/
def spelled (text : String) : List ClassMember :=
  (SourceChar.spelled text.toList).map single

/-- The range between two characters. -/
def between (low high : Char) : ClassMember :=
  range ⟨low, false, ⟨0, 0⟩⟩ ⟨high, false, ⟨0, 0⟩⟩ ⟨0, 0⟩

end ClassMember

namespace Part

/-- A part that only has an atom. -/
def ofAtom (atom : Atom) : Part where
  field := none
  stringify := false
  atom
  suffix := none
  span := ⟨0, 0⟩

/-- A part that refers to a rule. -/
def toRule (name : String) : Part :=
  ofAtom (.reference (.ofName name))

/-- A part that is a literal. -/
def quoted (quote : Quote) (text : String) : Part :=
  ofAtom (.literal quote (SourceChar.spelled text.toList) ⟨0, 0⟩)

/-- A part that is a class. -/
def ofClass (inverted : Bool) (members : List ClassMember) : Part :=
  ofAtom (.charClass inverted members ⟨0, 0⟩)

/-- A part as a field. -/
def named (field : String) (part : Part) : Part :=
  { part with field := some (.ofName field) }

/-- A part with a suffix. -/
def times (suffix : Suffix) (part : Part) : Part :=
  { part with suffix := some suffix }

/-- A part of which the text is asked for. -/
def textOf (part : Part) : Part :=
  { part with stringify := true }

end Part

namespace Rule

/-- A sequence rule of the given parts. -/
def ofParts (name : String) (parts : List Part) : Rule :=
  sequence (.ofName name) parts ⟨0, 0⟩

/-- A union rule of the given cases. -/
def ofCases (name : String) (cases : List String) : Rule :=
  union (.ofName name) (cases.map .ofName) ⟨0, 0⟩

end Rule

namespace Meta

open ClassMember (spelled between)

/-- The grammar of grammar documents as a syntax tree. -/
def document : Grammar where
  rules :=
    [.ofParts "grammar" [.toRule "_", .named "rules" (.times .oneOrMore (.toRule "rule"))],
      .ofCases "rule" ["union", "sequence"],
      .ofParts "union"
        [.named "name" (.toRule "ident"), .quoted .double ":", .toRule "_",
          .named "cases" (.times .oneOrMore (.toRule "kase")), .quoted .double ";", .toRule "_"],
      .ofParts "kase" [.named "kase" (.toRule "ident")],
      .ofParts "sequence"
        [.named "name" (.toRule "ident"), .quoted .double "=", .toRule "_",
          .named "parts" (.times .oneOrMore (.toRule "part")), .quoted .double ";", .toRule "_"],
      .ofParts "part"
        [.named "field" (.times .optional (.toRule "field")),
          .named "stringify" (.times .optional (.quoted .double "$")),
          .named "term" (.toRule "term"), .named "suffix" (.times .optional (.toRule "suffix"))],
      .ofParts "field" [.named "name" (.toRule "ident"), .quoted .double ":", .toRule "_"],
      .ofParts "suffix" [.named "suffix" (.ofClass false (spelled "+*?")), .toRule "_"],
      .ofCases "term" ["ref", "klass", "string1", "string2"],
      .ofParts "ref" [.named "name" (.toRule "ident")],
      .ofParts "klass"
        [.quoted .double "[", .named "inverted" (.times .optional (.toRule "inverted")),
          .named "parts" (.times .zeroOrMore (.toRule "classPart")), .quoted .double "]",
          .toRule "_"],
      .ofParts "inverted" [.quoted .double "^"],
      .ofCases "classPart" ["range", "single"],
      .ofParts "range"
        [.named "from" (.toRule "classChar"), .quoted .double "-",
          .named "to" (.toRule "classChar")],
      .ofParts "single" [.named "char" (.toRule "classChar")],
      .ofCases "classChar" ["classCharEscape", "classCharSimple"],
      .ofParts "classCharSimple" [.named "char" (.ofClass true (spelled "\\\\\\[\\]"))],
      .ofParts "classCharEscape"
        [.quoted .double "\\\\", .named "char" (.ofClass false (spelled "\\\\\\[\\]rnt^-"))],
      .ofParts "string1"
        [.quoted .double "'", .named "chars" (.times .zeroOrMore (.toRule "string1Char")),
          .quoted .double "'", .toRule "_"],
      .ofCases "string1Char" ["string1CharEscape", "string1CharSimple"],
      .ofParts "string1CharSimple" [.named "char" (.ofClass true (spelled "'\\\\\\r\\n\\t"))],
      .ofParts "string1CharEscape"
        [.quoted .double "\\\\", .named "char" (.ofClass false (spelled "'\\\\rnt"))],
      .ofParts "string2"
        [.quoted .single "\"", .named "chars" (.times .zeroOrMore (.toRule "string2Char")),
          .quoted .single "\"", .toRule "_"],
      .ofCases "string2Char" ["string2CharEscape", "string2CharSimple"],
      .ofParts "string2CharSimple"
        [.named "char" (.ofClass true (spelled "\"\\\\\\r\\n\\t"))],
      .ofParts "string2CharEscape"
        [.quoted .double "\\\\", .named "char" (.ofClass false (spelled "\"\\\\rnt"))],
      .ofParts "ident" [.named "name" (.textOf (.toRule "identName")), .toRule "_"],
      .ofParts "identName"
        [.ofClass false (between 'a' 'z' :: between 'A' 'Z' :: spelled "_"),
          .times .zeroOrMore (.ofClass false
            (between 'a' 'z' :: between 'A' 'Z' :: between '0' '9' :: spelled "_"))],
      .ofParts "_" [.times .zeroOrMore (.ofClass false (spelled " \\t\\r\\n"))]]
  span := ⟨0, 0⟩

/-- A grammar is written line by line. -/
theorem display_lines (rules : List Rule) (span : Span) :
    Grammar.display ⟨rules, span⟩ =
      rules.foldl (fun text rule => text ++ (rule.display ++ "\n")) "" := by
  suffices ∀ before : String,
      rules.foldl (fun text rule => text ++ (rule.display ++ "\n")) before =
        before ++ Grammar.display ⟨rules, span⟩ by
    rw [this, String.empty_append]
  intro before
  induction rules generalizing before with
  | nil => exact String.append_empty.symm
  | cons rule rules ih =>
      have first : Grammar.display ⟨rule :: rules, span⟩ =
          rule.display ++ "\n" ++ Grammar.display ⟨rules, span⟩ := by
        simp only [Grammar.display, Grammar.written, Rule.display, List.flatMap_cons,
          String.ofList_append]
      rw [List.foldl_cons, ih, first, String.append_assoc]

/-- The document is what is written of the syntax tree. -/
theorem display_document : document.display = text := by
  refine (display_lines _ _).trans ?_
  unfold text
  -- the two texts are compared line by line
  iterate 28 refine congrArg₂ HAppend.hAppend ?_ ?_
  all_goals cbv

theorem legible_document : document.IsLegible := by
  decide

/-- Without places the syntax tree compiles to the program built by hand. -/
theorem compile_document :
    resultSeen Program.unplaced (document.compile defaultMaxDepth) = .ok program := by
  rfl

/-- The document compiles to a program that is the one built by hand, but for its places. -/
theorem exists_compiled_text :
    ∃ grammar compiled, Grammar.read text = .ok grammar ∧
      grammar.compile defaultMaxDepth = .ok compiled ∧ compiled.unplaced = program := by
  obtain ⟨grammar, read, same⟩ := Grammar.read_of_legible legible_document
  rw [display_document] at read
  have seen : resultSeen Program.unplaced (grammar.compile defaultMaxDepth) = .ok program := by
    rw [← grammar.compile_erase_spans, same, Grammar.compile_erase_spans, compile_document]
  obtain ⟨compiled, result, unplaced_eq⟩ := seen_eq_ok_iff.mp seen
  exact ⟨grammar, compiled, read, result, unplaced_eq⟩

/-- Matching a text with the grammar of grammar documents never ends in a fault. -/
theorem exists_trace (text : String) : ∃ trace, program.trace startRule text = .ok trace := by
  have tells := Grammar.tells_of_reply text
  obtain ⟨outcome, context, replied⟩ : ∃ outcome context,
      program.reply (.call startRule) (.start text) = .ok outcome context := by
    generalize program.reply (.call startRule) (.start text) = reply at tells
    generalize Grammar.scan.run (.start text) = found at tells
    cases tells with
    | item => exact ⟨_, _, rfl⟩
    | miss => exact ⟨_, _, rfl⟩
  obtain ⟨events, traced⟩ := Program.trace_of_reply rfl replied
  exact ⟨_, traced⟩

end Meta

/-- The grammar of grammar documents hosts itself. Its document is read, and compiles to a program
that reads every document as the one built by hand does, with the same syntax tree or the same
report, and has the same trace on every text but for the events that tell of places. -/
theorem self_hosting :
    ∃ grammar compiled, Grammar.read Meta.text = .ok grammar ∧
      grammar.compile defaultMaxDepth = .ok compiled ∧
      (∀ name text, Grammar.readWith Meta.program name text =
        Grammar.readWith compiled name text) ∧
      ∀ text, ∃ trace placed, Meta.program.trace Meta.startRule text = .ok trace ∧
        compiled.trace Meta.startRule text = .ok placed ∧ placed.verdict = trace.verdict ∧
          Event.withoutPlaces placed.events = trace.events := by
  obtain ⟨grammar, compiled, read, result, unplaced_eq⟩ := Meta.exists_compiled_text
  have units := Grammar.units_of_compile result
  refine ⟨grammar, compiled, read, result, fun name text => ?_, fun text => ?_⟩
  · have parsed := Program.parse_unplaced units Meta.startRule text
    rw [unplaced_eq] at parsed
    rw [Grammar.readWith, Grammar.readWith, parsed]
  · obtain ⟨trace, traced⟩ := Meta.exists_trace text
    have placed_traced := Program.trace_unplaced units Meta.startRule text
    rw [unplaced_eq, traced] at placed_traced
    obtain ⟨placed, ran, rfl⟩ := map_eq_ok_iff.mp placed_traced.symm
    exact ⟨_, placed, traced, ran, rfl, rfl⟩

end TracedGrammar

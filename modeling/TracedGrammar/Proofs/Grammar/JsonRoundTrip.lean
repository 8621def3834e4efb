import TracedGrammar.Grammar.Json
import TracedGrammar.Proofs.Json.Omission

/-!
# Grammars survive JSON

The JSON of a grammar is read back as that grammar, with or without the null members that stand for
a part without a field name or without a suffix. Each kind of node is read from its own JSON if its
parts are, so the proof follows the syntax tree. Offsets are read if they are 64-bit numbers.

The theorem to read first is `grammar_of_json`.
-/

namespace TracedGrammar

open Json (Omits Reads omits_members tagByName? tagByNameOrPosition?)

/-- Both bounds of a span are 64-bit numbers. -/
def Span.IsNarrow (span : Span) : Prop :=
  span.start < UInt64.size ∧ span.stop < UInt64.size

instance (span : Span) : Decidable span.IsNarrow :=
  inferInstanceAs (Decidable (_ ∧ _))

/-- The spans in a class member. -/
def ClassMember.spans : ClassMember → List Span
  | range low high span => [low.span, high.span, span]
  | single char => [char.span]

/-- The spans in an atom. -/
def Atom.spans : Atom → List Span
  | reference target => [target.span]
  | charClass _ members span => span :: members.flatMap ClassMember.spans
  | literal _ chars span => span :: chars.map SourceChar.span

/-- The spans in a part. -/
def Part.spans (part : Part) : List Span :=
  part.span :: part.field.toList.map Ident.span ++ part.atom.spans

/-- The spans in a rule. -/
def Rule.spans : Rule → List Span
  | sequence name parts span => span :: name.span :: parts.flatMap Part.spans
  | union name cases span => span :: name.span :: cases.map Ident.span

/-- The spans in a grammar. -/
def Grammar.spans (grammar : Grammar) : List Span :=
  grammar.span :: grammar.rules.flatMap Rule.spans

theorem Span.reads {span : Span} (narrow : span.IsNarrow) :
    Reads ofJson? span.toJson span := by
  intro json omits
  obtain ⟨columns, columns_eq, found⟩ := omits.columns ["start", "end"] rfl (by decide)
  obtain _ | ⟨start, _ | ⟨stop, ⟨⟩⟩⟩ := found
  obtain ⟨start, rfl, start_eq⟩ := start.exists_read rfl (Json.reads_offset narrow.1)
  obtain ⟨stop, rfl, stop_eq⟩ := stop.exists_read rfl (Json.reads_offset narrow.2)
  simp [ofJson?, columns_eq, start_eq, stop_eq]

theorem Ident.reads {ident : Ident} (narrow : ident.span.IsNarrow) :
    Reads ofJson? ident.toJson ident := by
  intro json omits
  obtain ⟨columns, columns_eq, found⟩ := omits.columns ["name", "span"] rfl (by decide)
  obtain _ | ⟨name, _ | ⟨span, ⟨⟩⟩⟩ := found
  obtain ⟨name, rfl, name_eq⟩ := name.exists_read rfl (Json.reads_text _)
  obtain ⟨span, rfl, span_eq⟩ := span.exists_read rfl (Span.reads narrow)
  simp [ofJson?, columns_eq, name_eq, span_eq]

theorem SourceChar.reads {char : SourceChar} (narrow : char.span.IsNarrow) :
    Reads ofJson? char.toJson char := by
  intro json omits
  obtain ⟨columns, columns_eq, found⟩ := omits.columns ["ch", "escaped", "span"] rfl (by decide)
  obtain _ | ⟨letter, _ | ⟨escaped, _ | ⟨span, ⟨⟩⟩⟩⟩ := found
  obtain ⟨letter, rfl, letter_eq⟩ := letter.exists_read rfl (Json.reads_char _)
  obtain ⟨escaped, rfl, escaped_eq⟩ := escaped.exists_read rfl (Json.reads_bool _)
  obtain ⟨span, rfl, span_eq⟩ := span.exists_read rfl (Span.reads narrow)
  simp [ofJson?, columns_eq, letter_eq, escaped_eq, span_eq]

theorem ClassMember.reads {member : ClassMember} (narrow : ∀ span ∈ member.spans, span.IsNarrow) :
    Reads ofJson? member.toJson member := by
  intro json omits
  cases member with
  | range low high span =>
      simp only [spans, List.forall_mem_cons] at narrow
      obtain ⟨low_narrow, high_narrow, span_narrow, -⟩ := narrow
      have tag_eq : tagByNameOrPosition? ["Range", "Single"] (.str "Range") = some 0 := rfl
      obtain ⟨body, columns, variant_eq, columns_eq, found⟩ :=
        omits.variant_columns ["from", "to", "span"] rfl (by decide)
      obtain _ | ⟨low, _ | ⟨high, _ | ⟨span, ⟨⟩⟩⟩⟩ := found
      obtain ⟨low, rfl, low_eq⟩ := low.exists_read rfl (SourceChar.reads low_narrow)
      obtain ⟨high, rfl, high_eq⟩ := high.exists_read rfl (SourceChar.reads high_narrow)
      obtain ⟨span, rfl, span_eq⟩ := span.exists_read rfl (Span.reads span_narrow)
      simp [ofJson?, variant_eq, tag_eq, columns_eq, low_eq, high_eq, span_eq]
  | single char =>
      have tag_eq : tagByNameOrPosition? ["Range", "Single"] (.str "Single") = some 1 := rfl
      obtain ⟨body, variant_eq, omits⟩ := omits.variant ["ch", "escaped", "span"] rfl (by decide)
      have char_eq := SourceChar.reads (narrow _ List.mem_cons_self) body omits
      simp [ofJson?, variant_eq, tag_eq, char_eq]

theorem Quote.reads (quote : Quote) : Reads ofJson? quote.toJson quote := by
  intro json omits
  cases quote <;> cases omits <;> rfl

theorem Suffix.reads (suffix : Suffix) : Reads ofJson? suffix.toJson suffix := by
  intro json omits
  cases suffix <;> cases omits <;> rfl

theorem Atom.reads {atom : Atom} (narrow : ∀ span ∈ atom.spans, span.IsNarrow) :
    Reads ofJson? atom.toJson atom := by
  intro json omits
  cases atom with
  | reference target =>
      have tag_eq : tagByNameOrPosition? ["Ref", "Class", "Literal"] (.str "Ref") = some 0 := rfl
      obtain ⟨body, variant_eq, omits⟩ := omits.variant ["name", "span"] rfl (by decide)
      have target_eq := Ident.reads (narrow _ List.mem_cons_self) body omits
      simp [ofJson?, variant_eq, tag_eq, target_eq]
  | charClass inverted members span =>
      simp only [spans, List.forall_mem_cons, List.forall_mem_flatMap] at narrow
      obtain ⟨span_narrow, members_narrow⟩ := narrow
      have tag_eq : tagByNameOrPosition? ["Ref", "Class", "Literal"] (.str "Class") = some 1 := rfl
      obtain ⟨body, columns, variant_eq, columns_eq, found⟩ :=
        omits.variant_columns ["inverted", "parts", "span"] rfl (by decide)
      obtain _ | ⟨inverted, _ | ⟨members, _ | ⟨span, ⟨⟩⟩⟩⟩ := found
      obtain ⟨inverted, rfl, inverted_eq⟩ := inverted.exists_read rfl (Json.reads_bool _)
      obtain ⟨members, items, rfl, items_eq, members_eq⟩ :=
        members.exists_read_list fun member among => ClassMember.reads (members_narrow member among)
      obtain ⟨span, rfl, span_eq⟩ := span.exists_read rfl (Span.reads span_narrow)
      simp [ofJson?, variant_eq, tag_eq, columns_eq, inverted_eq, items_eq, members_eq, span_eq]
  | literal quote chars span =>
      simp only [spans, List.forall_mem_cons, List.forall_mem_map] at narrow
      obtain ⟨span_narrow, chars_narrow⟩ := narrow
      have tag_eq : tagByNameOrPosition? ["Ref", "Class", "Literal"] (.str "Literal") = some 2 :=
        rfl
      obtain ⟨body, columns, variant_eq, columns_eq, found⟩ :=
        omits.variant_columns ["quote", "chars", "span"] rfl (by decide)
      obtain _ | ⟨quote, _ | ⟨chars, _ | ⟨span, ⟨⟩⟩⟩⟩ := found
      obtain ⟨quote, rfl, quote_eq⟩ := quote.exists_read rfl (Quote.reads _)
      obtain ⟨chars, items, rfl, items_eq, chars_eq⟩ :=
        chars.exists_read_list fun char among => SourceChar.reads (chars_narrow char among)
      obtain ⟨span, rfl, span_eq⟩ := span.exists_read rfl (Span.reads span_narrow)
      simp [ofJson?, variant_eq, tag_eq, columns_eq, quote_eq, items_eq, chars_eq, span_eq]

/-- A part is read with or without the null members of a field name and a suffix that it does not
have. -/
theorem Part.reads {part : Part} (narrow : ∀ span ∈ part.spans, span.IsNarrow) :
    Reads ofJson? part.toJson part := by
  intro json omits
  simp only [spans, List.cons_append, List.forall_mem_cons, List.forall_mem_append,
    List.forall_mem_map, Option.mem_toList] at narrow
  obtain ⟨span_narrow, field_narrow, atom_narrow⟩ := narrow
  obtain ⟨columns, columns_eq, found⟩ :=
    omits.columns ["field", "stringify", "term", "suffix", "span"] rfl (by decide)
  obtain _ | ⟨field, _ | ⟨stringify, _ | ⟨atom, _ | ⟨suffix, _ | ⟨span, ⟨⟩⟩⟩⟩⟩⟩ := found
  have field_eq := field.optional_read rfl fun field among => Ident.reads (field_narrow field among)
  obtain ⟨stringify, rfl, stringify_eq⟩ := stringify.exists_read rfl (Json.reads_bool _)
  obtain ⟨atom, rfl, atom_eq⟩ := atom.exists_read rfl (Atom.reads atom_narrow)
  have suffix_eq := suffix.optional_read rfl fun suffix _ => Suffix.reads suffix
  obtain ⟨span, rfl, span_eq⟩ := span.exists_read rfl (Span.reads span_narrow)
  simp [ofJson?, columns_eq, field_eq, stringify_eq, atom_eq, suffix_eq, span_eq]

theorem Rule.reads {rule : Rule} (narrow : ∀ span ∈ rule.spans, span.IsNarrow) :
    Reads ofJson? rule.toJson rule := by
  intro json omits
  cases rule with
  | sequence name parts span =>
      simp only [spans, List.forall_mem_cons, List.forall_mem_flatMap] at narrow
      obtain ⟨span_narrow, name_narrow, parts_narrow⟩ := narrow
      have tag_eq : tagByName? ["Sequence", "Union"] (.str "Sequence") = some 0 := rfl
      obtain ⟨body, columns, variant_eq, columns_eq, found⟩ :=
        omits.variant_columns ["name", "parts", "span"] rfl (by decide)
      obtain _ | ⟨name, _ | ⟨parts, _ | ⟨span, ⟨⟩⟩⟩⟩ := found
      obtain ⟨name, rfl, name_eq⟩ := name.exists_read rfl (Ident.reads name_narrow)
      obtain ⟨parts, items, rfl, items_eq, parts_eq⟩ :=
        parts.exists_read_list fun part among => Part.reads (parts_narrow part among)
      obtain ⟨span, rfl, span_eq⟩ := span.exists_read rfl (Span.reads span_narrow)
      simp [ofJson?, variant_eq, tag_eq, columns_eq, name_eq, items_eq, parts_eq, span_eq]
  | union name cases span =>
      simp only [spans, List.forall_mem_cons, List.forall_mem_map] at narrow
      obtain ⟨span_narrow, name_narrow, cases_narrow⟩ := narrow
      have tag_eq : tagByName? ["Sequence", "Union"] (.str "Union") = some 1 := rfl
      obtain ⟨body, columns, variant_eq, columns_eq, found⟩ :=
        omits.variant_columns ["name", "cases", "span"] rfl (by decide)
      obtain _ | ⟨name, _ | ⟨cases, _ | ⟨span, ⟨⟩⟩⟩⟩ := found
      obtain ⟨name, rfl, name_eq⟩ := name.exists_read rfl (Ident.reads name_narrow)
      obtain ⟨cases, items, rfl, items_eq, cases_eq⟩ :=
        cases.exists_read_list fun ident among => Ident.reads (cases_narrow ident among)
      obtain ⟨span, rfl, span_eq⟩ := span.exists_read rfl (Span.reads span_narrow)
      simp [ofJson?, variant_eq, tag_eq, columns_eq, name_eq, items_eq, cases_eq, span_eq]

theorem Grammar.reads {grammar : Grammar} (narrow : ∀ span ∈ grammar.spans, span.IsNarrow) :
    Reads ofJson? grammar.toJson grammar := by
  intro json omits
  simp only [spans, List.forall_mem_cons, List.forall_mem_flatMap] at narrow
  obtain ⟨span_narrow, rules_narrow⟩ := narrow
  obtain ⟨columns, columns_eq, found⟩ := omits.columns ["rules", "span"] rfl (by decide)
  obtain _ | ⟨rules, _ | ⟨span, ⟨⟩⟩⟩ := found
  obtain ⟨rules, items, rfl, items_eq, rules_eq⟩ :=
    rules.exists_read_list fun rule among => Rule.reads (rules_narrow rule among)
  obtain ⟨span, rfl, span_eq⟩ := span.exists_read rfl (Span.reads span_narrow)
  simp [ofJson?, columns_eq, items_eq, rules_eq, span_eq]

/-- Grammars survive JSON: a grammar whose offsets are 64-bit numbers is read back from its JSON,
also with any of its null members left out, which are those of absent field names and suffixes. -/
theorem grammar_of_json {grammar : Grammar} (narrow : ∀ span ∈ grammar.spans, span.IsNarrow) :
    Grammar.ofJson? grammar.toJson = some grammar ∧
      ∀ json, Omits grammar.toJson json → Grammar.ofJson? json = some grammar :=
  have reads := Grammar.reads narrow
  ⟨reads _ (.refl _), reads⟩

/-- A grammar of one part without a field name and without a suffix. -/
def bareGrammar : Grammar where
  rules :=
    [.sequence ⟨"a", ⟨0, 1⟩⟩
      [⟨none, true, .charClass false [.range ⟨'b', false, ⟨5, 6⟩⟩ ⟨'c', false, ⟨7, 8⟩⟩ ⟨5, 8⟩,
        .single ⟨'d', true, ⟨8, 10⟩⟩] ⟨4, 11⟩, none, ⟨3, 11⟩⟩] ⟨0, 12⟩]
  span := ⟨0, 12⟩

/-- The JSON of that grammar without the members for the field name and the suffix. -/
def bareJson : Json :=
  .obj [("rules", .arr [.obj [("kind", .str "Sequence"),
      ("name", .obj [("name", .str "a"), ("span", .obj [("start", .nat 0), ("end", .nat 1)])]),
      ("parts", .arr [.obj [("stringify", .bool true),
        ("term", (Atom.charClass false [.range ⟨'b', false, ⟨5, 6⟩⟩ ⟨'c', false, ⟨7, 8⟩⟩ ⟨5, 8⟩,
          .single ⟨'d', true, ⟨8, 10⟩⟩] ⟨4, 11⟩).toJson),
        ("span", .obj [("start", .nat 3), ("end", .nat 11)])]]),
      ("span", .obj [("start", .nat 0), ("end", .nat 12)])]]),
    ("span", .obj [("start", .nat 0), ("end", .nat 12)])]

/-- A part is read back without the null members of its field name and its suffix. -/
theorem grammar_of_bare_json : (∀ span ∈ bareGrammar.spans, span.IsNarrow) ∧
    Omits bareGrammar.toJson bareJson ∧ Grammar.ofJson? bareJson = some bareGrammar := by
  have narrow : ∀ span ∈ bareGrammar.spans, span.IsNarrow := by decide
  have omits : Omits bareGrammar.toJson bareJson := by
    refine .obj (.keep (.arr (.cons (.obj ?_) .nil)) (omits_members _))
    refine .keep .str (.keep (.refl _) (.keep (.arr (.cons (.obj ?_) .nil)) (omits_members _)))
    exact .drop (.keep .bool (.keep (.refl _) (.drop (omits_members _))))
  exact ⟨narrow, omits, (grammar_of_json narrow).2 bareJson omits⟩

end TracedGrammar

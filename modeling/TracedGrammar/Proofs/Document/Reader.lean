import TracedGrammar.Proofs.Document.Syntax

/-!
# Reading grammar documents is scanning them

`Meta.program` follows the scanners of `TracedGrammar.Proofs.Document.Syntax`: the value of each of
its rules stands for the node that is scanned (`Meta.follows_grammar`). So a document is read
exactly if it is scanned to its end (`Grammar.readNamed_eq_ok_iff`).
-/

namespace TracedGrammar

open Scanner (exactly char spanned many many1 oneOf noneOf blanks)
open Program (Follows FollowsParts)

namespace Meta

-- how a record is put together by a rule, and what is found in it
attribute [local simp] Value.asRuleRecord Value.extend Value.toRecord Record.insert
  Record.insertField Record.empty Value.expectRecord Record.expectField Record.get?
  Record.lookup_field Value.expectText Value.expectList Record.spanOrZero bind Except.bind pure
  Except.pure

variable {depth : Nat}

theorem follows_blanks (enough : depth + 1 ≤ program.maxDepth) :
    program.Follows depth (.call "_") (fun _ _ => True) blanks := by
  refine .call rfl (by omega) (.tagged_anywhere ?_)
  refine .cons (.zeroOrMore (.char _) (Scanner.oneOf_finds _).eats) fun _ _ _ => ?_
  exact .nil fun _ => trivial

theorem follows_name (enough : depth + 1 ≤ program.maxDepth) :
    program.Follows depth (.call "identName") (fun _ _ => True) Scanner.name := by
  refine .call rfl (by omega) (.tagged_anywhere ?_)
  refine .cons (.char _) fun _ first _ => .cons (.zeroOrMore (.char _) ?_) fun _ others _ => ?_
  · exact Scanner.Ensures.mono (.char _) fun chars char found => by simp [found.2]
  · exact .nil fun _ => trivial

theorem follows_ident (enough : depth + 2 ≤ program.maxDepth) :
    program.Follows depth (.call "ident") (fun value ident => Ident.ofValue value = .ok ident)
      Ident.scan := by
  refine .call rfl (by omega) (.tagged ?_)
  refine .cons (.stringify (follows_name (by omega)) ?_) fun found name mean => ?_
  · exact Scanner.name_ensures.mono fun chars name found => by simp [found.1]
  · refine .cons (follows_blanks (by omega)) fun _ _ _ => .nil fun span => ?_
    rw [mean]
    rfl

/-- A record of one of the rules that are expected is what it should be. -/
theorem expectRecord_eq {tags : List String} {content : Record Value} {tag : String}
    (tagged : content.tag = some tag) (known : tags.contains tag = true) :
    (Value.record content).expectRecord tags = .ok content := by
  simp only [Value.expectRecord, tagged, known, if_true]

/-- The value of a character rule stands for the one character of its field. -/
theorem ofValue_char {rule : String} (known : charRules.contains rule = true) (char : Char)
    (span : Span) :
    SourceChar.ofValue (.record
        { tag := some rule, span := some span,
          fields := [("char", .text (String.singleton char))] })
      = .ok ⟨char, escapedCharRules.contains rule, span⟩ := by
  rw [SourceChar.ofValue, expectRecord_eq rfl known]
  simp

theorem follows_escaped {rule allowed : String}
    (resolved : program.rules.resolve? rule = some (escapedChar rule allowed).2)
    (escaped : escapedCharRules.contains rule = true) (known : charRules.contains rule = true)
    (enough : depth + 1 ≤ program.maxDepth) :
    program.Follows depth (.call rule) (fun value char => SourceChar.ofValue value = .ok char)
      (SourceChar.scanEscaped allowed) := by
  refine .call resolved (by omega) (.tagged ?_)
  refine .cons (.literal _) fun _ _ _ => .cons (.char _) fun _ char mean => .nil fun span => ?_
  rw [mean.2, ← escaped]
  exact ofValue_char known char span

theorem follows_simple {rule excluded : String}
    (resolved : program.rules.resolve? rule = some (simpleChar rule excluded).2)
    (escaped : escapedCharRules.contains rule = false) (known : charRules.contains rule = true)
    (enough : depth + 1 ≤ program.maxDepth) :
    program.Follows depth (.call rule) (fun value char => SourceChar.ofValue value = .ok char)
      (SourceChar.scanSimple excluded) := by
  refine .call resolved (by omega) (.tagged ?_)
  refine .cons (.char _) fun _ char mean => .nil fun span => ?_
  rw [mean.2, ← escaped]
  exact ofValue_char known char span

theorem follows_class_char (enough : depth + 2 ≤ program.maxDepth) :
    program.Follows depth (.call "classChar")
      (fun value char => SourceChar.ofValue value = .ok char) SourceChar.scanInClass := by
  refine .call rfl (by omega) (.untagged (.orElse (.only ?_) ?_))
  · exact follows_escaped rfl rfl rfl (by omega)
  · exact follows_simple rfl rfl rfl (by omega)

/-- The rule of a character between quotes. -/
def quotedCharRule : Quote → String
  | .single => "string1Char"
  | .double => "string2Char"

theorem follows_quoted_char (quote : Quote) (enough : depth + 2 ≤ program.maxDepth) :
    program.Follows depth (.call (quotedCharRule quote))
      (fun value char => SourceChar.ofValue value = .ok char) (SourceChar.scanQuoted quote) := by
  cases quote <;> refine .call rfl (by omega) (.untagged (.orElse (.only ?_) ?_))
  · exact follows_escaped rfl rfl rfl (by omega)
  · exact follows_simple rfl rfl rfl (by omega)
  · exact follows_escaped rfl rfl rfl (by omega)
  · exact follows_simple rfl rfl rfl (by omega)

theorem follows_member (enough : depth + 4 ≤ program.maxDepth) :
    program.Follows depth (.call "classPart")
      (fun value member => ClassMember.ofValue value = .ok member) ClassMember.scan := by
  refine .call rfl (by omega) (.untagged (.orElse (.only ?_) ?_))
  · refine .call rfl (by omega) (.tagged ?_)
    refine .cons (follows_class_char (by omega)) fun _ low low_eq => ?_
    refine .cons (.literal _) fun _ _ _ => ?_
    refine .cons (follows_class_char (by omega)) fun _ high high_eq => .nil fun span => ?_
    simp [ClassMember.ofValue, low_eq, high_eq]
  · rw [map_eq_pure_bind]
    refine .call rfl (by omega) (.tagged_anywhere ?_)
    refine .cons (follows_class_char (by omega)) fun _ char char_eq => .nil fun span => ?_
    simp [ClassMember.ofValue, char_eq]

theorem follows_reference (enough : depth + 3 ≤ program.maxDepth) :
    program.Follows depth (.call "ref") (fun value atom => Atom.ofValue value = .ok atom)
      Atom.scanReference := by
  rw [Atom.scanReference, map_eq_pure_bind]
  refine .call rfl (by omega) (.tagged_anywhere ?_)
  refine .cons (follows_ident (by omega)) fun _ target target_eq => .nil fun span => ?_
  simp [Atom.ofValue, target_eq]

theorem follows_caret (enough : depth + 1 ≤ program.maxDepth) :
    program.Follows depth (.call "inverted") (fun value _ => value.isAbsent = false)
      (exactly "^") := by
  rw [← bind_pure (exactly "^")]
  refine .call rfl (by omega) (.tagged_anywhere ?_)
  exact .cons (.literal _) fun _ _ _ => .nil fun _ => rfl

theorem follows_class (enough : depth + 5 ≤ program.maxDepth) :
    program.Follows depth (.call "klass") (fun value atom => Atom.ofValue value = .ok atom)
      Atom.scanClass := by
  refine .call rfl (by omega) (.tagged ?_)
  refine .cons (.literal _) fun _ _ _ => ?_
  refine .cons (.optional (follows_caret (by omega))) fun mark inverted mark_eq => ?_
  refine .cons (.zeroOrMore (follows_member (by omega)) ClassMember.scan_eats)
    fun _ members all => ?_
  obtain ⟨values, rfl, all⟩ := all
  refine .cons (.literal _) fun _ _ _ => .cons (follows_blanks (by omega)) fun _ _ _ => ?_
  refine .nil fun span => ?_
  have absent_eq := mark_eq.isAbsent_eq fun _ present => present
  simp [Atom.ofValue, absent_eq, mapM_eq_ok_iff.mpr all]

/-- The rule of a literal in the given quotes. -/
def literalRule : Quote → String
  | .single => "string1"
  | .double => "string2"

theorem follows_literal (quote : Quote) (enough : depth + 3 ≤ program.maxDepth) :
    program.Follows depth (.call (literalRule quote))
      (fun value atom => Atom.ofValue value = .ok atom) (Atom.scanLiteral quote) := by
  have resolved : program.rules.resolve? (literalRule quote) =
      some (quoted (literalRule quote) quote.text (quotedCharRule quote)).2 := by
    cases quote <;> rfl
  refine .call resolved (by omega) (.tagged ?_)
  refine .cons (.literal _) fun _ _ _ => ?_
  refine .cons (.zeroOrMore (follows_quoted_char quote (by omega))
    (SourceChar.scanQuoted_finds quote).eats) fun _ chars all => ?_
  obtain ⟨values, rfl, all⟩ := all
  refine .cons (.literal _) fun _ _ _ => .cons (follows_blanks (by omega)) fun _ _ _ => ?_
  refine .nil fun span => ?_
  cases quote <;> simp [Atom.ofValue, literalRule, mapM_eq_ok_iff.mpr all]

theorem follows_term (enough : depth + 6 ≤ program.maxDepth) :
    program.Follows depth (.call "term") (fun value atom => Atom.ofValue value = .ok atom)
      Atom.scan := by
  refine .call rfl (by omega) (.untagged (.orElse (.orElse (.orElse (.only ?_) ?_) ?_) ?_))
  · exact follows_reference (by omega)
  · exact follows_class (by omega)
  · exact follows_literal .single (by omega)
  · exact follows_literal .double (by omega)

theorem ofSymbol_eq {symbol : Char}
    (known : (CharClass.empty.addChars "+*?").accepts symbol = true) :
    Suffix.ofSymbol (String.singleton symbol) = .ok (.ofChar symbol) := by
  have cases : symbol = '+' ∨ symbol = '*' ∨ symbol = '?' := by
    simpa using (Scanner.accepts_addChars _ _).mp known
  rcases cases with rfl | rfl | rfl <;> rfl

theorem follows_suffix (enough : depth + 2 ≤ program.maxDepth) :
    program.Follows depth (.call "suffix")
      (fun value suffix => Part.suffixOfValue value = .ok (some suffix)) Suffix.scan := by
  refine .call rfl (by omega) (.tagged_anywhere ?_)
  refine .cons (.char _) fun _ symbol found => ?_
  refine .cons (follows_blanks (by omega)) fun _ _ _ => .nil fun span => ?_
  simp [Part.suffixOfValue, found.2, ofSymbol_eq found.1]

theorem follows_field (enough : depth + 3 ≤ program.maxDepth) :
    program.Follows depth (.call "field")
      (fun value field => Part.fieldOfValue value = .ok (some field)) Part.scanField := by
  refine .call rfl (by omega) (.tagged_anywhere ?_)
  refine .cons (follows_ident (by omega)) fun _ name name_eq => .cons (.literal _) fun _ _ _ => ?_
  refine .cons (follows_blanks (by omega)) fun _ _ _ => .nil fun span => ?_
  simp [Part.fieldOfValue, name_eq]

/-- An optional value is converted as its item is. -/
theorem means_optional {α : Type} {convert : Value → Except ShapeFault (Option α)} {value : Value}
    {item? : Option α} (none_eq : convert .absent = .ok none)
    (h : value.MeansOptional (fun value item => convert value = .ok (some item)) item?) :
    convert value = .ok item? := by
  cases item? with
  | none => rw [show value = .absent from h, none_eq]
  | some item => exact h

theorem follows_part (enough : depth + 7 ≤ program.maxDepth) :
    program.Follows depth (.call "part") (fun value part => Part.ofValue value = .ok part)
      Part.scan := by
  refine .call rfl (by omega) (.tagged ?_)
  refine .cons (.optional (follows_field (by omega))) fun _ field field_eq => ?_
  refine .cons (.optional (.literal _)) fun mark stringify mark_eq => ?_
  refine .cons (follows_term (by omega)) fun _ atom atom_eq => ?_
  refine .cons (.optional (follows_suffix (by omega))) fun _ suffix suffix_eq => ?_
  refine .nil fun span => ?_
  have absent_eq := mark_eq.isAbsent_eq fun _ present => by rw [present]; rfl
  simp [Part.ofValue, means_optional rfl field_eq, means_optional rfl suffix_eq, absent_eq, atom_eq]

theorem follows_case (enough : depth + 3 ≤ program.maxDepth) :
    program.Follows depth (.call "kase") (fun value target => Rule.caseOfValue value = .ok target)
      Ident.scan := by
  rw [← bind_pure Ident.scan]
  refine .call rfl (by omega) (.tagged_anywhere ?_)
  refine .cons (follows_ident (by omega)) fun _ target target_eq => .nil fun span => ?_
  simp [Rule.caseOfValue, target_eq]

theorem follows_union (enough : depth + 4 ≤ program.maxDepth) :
    program.Follows depth (.call "union") (fun value rule => Rule.ofValue value = .ok rule)
      Rule.scanUnion := by
  refine .call rfl (by omega) (.tagged ?_)
  refine .cons (follows_ident (by omega)) fun _ name name_eq => .cons (.literal _) fun _ _ _ => ?_
  refine .cons (follows_blanks (by omega)) fun _ _ _ => ?_
  refine .cons (.oneOrMore (follows_case (by omega)) Ident.scan_finds.eats) fun _ cases all => ?_
  obtain ⟨values, rfl, all⟩ := all
  refine .cons (.literal _) fun _ _ _ => .cons (follows_blanks (by omega)) fun _ _ _ => ?_
  refine .nil fun span => ?_
  simp [Rule.ofValue, name_eq, mapM_eq_ok_iff.mpr all]

theorem follows_sequence (enough : depth + 8 ≤ program.maxDepth) :
    program.Follows depth (.call "sequence") (fun value rule => Rule.ofValue value = .ok rule)
      Rule.scanSequence := by
  refine .call rfl (by omega) (.tagged ?_)
  refine .cons (follows_ident (by omega)) fun _ name name_eq => .cons (.literal _) fun _ _ _ => ?_
  refine .cons (follows_blanks (by omega)) fun _ _ _ => ?_
  refine .cons (.oneOrMore (follows_part (by omega)) Part.scan_finds.eats) fun _ parts all => ?_
  obtain ⟨values, rfl, all⟩ := all
  refine .cons (.literal _) fun _ _ _ => .cons (follows_blanks (by omega)) fun _ _ _ => ?_
  refine .nil fun span => ?_
  simp [Rule.ofValue, name_eq, mapM_eq_ok_iff.mpr all]

theorem follows_rule (enough : depth + 9 ≤ program.maxDepth) :
    program.Follows depth (.call "rule") (fun value rule => Rule.ofValue value = .ok rule)
      Rule.scan := by
  refine .call rfl (by omega) (.untagged (.orElse (.only ?_) ?_))
  · exact follows_union (by omega)
  · exact follows_sequence (by omega)

/-- The rule of a whole document does what the scanner of grammars does, and yields values that
stand for what is scanned. -/
theorem follows_grammar (enough : depth + 10 ≤ program.maxDepth) :
    program.Follows depth (.call startRule)
      (fun value grammar => Grammar.ofValue value = .ok grammar) Grammar.scan := by
  refine .call rfl (by omega) (.tagged ?_)
  refine .cons (follows_blanks (by omega)) fun _ _ _ => ?_
  refine .cons (.oneOrMore (follows_rule (by omega)) Rule.scan_finds.eats) fun _ rules all => ?_
  obtain ⟨values, rfl, all⟩ := all
  refine .nil fun span => ?_
  simp [Grammar.ofValue, mapM_eq_ok_iff.mpr all]

end Meta

namespace Grammar

/-- Matching a text with the grammar of grammar documents tells what the scanner of grammars has
found in it. -/
theorem tells_of_reply (text : String) :
    Reply.Tells 0 (fun value grammar => Grammar.ofValue value = .ok grammar)
      (Grammar.scan.run (.start text))
      (Meta.program.reply (.call Meta.startRule) (.start text)) := by
  have enough : 0 + 10 ≤ Meta.program.maxDepth := by decide
  rw [Context.start, Program.reply_eq]
  exact Meta.follows_grammar enough (.start text)

/-- A document is read if it is blank, which leaves it without rules, or if it is scanned to its
end. -/
theorem readNamed_eq_ok_iff {name text : String} {grammar : Grammar} :
    readNamed name text = .ok grammar ↔
      if Text.isBlank text then grammar = ⟨[], ⟨0, text.utf8ByteSize⟩⟩
      else ∃ after, Grammar.scan.run (.start text) = some (grammar, after) ∧ after.rest = [] := by
  rw [readNamed, readWith]
  split
  · simp [eq_comm]
  · have tells := tells_of_reply text
    have declared : Meta.program.rules.resolve? Meta.startRule = some _ := rfl
    rw [Program.parse, run_of_declared declared]
    generalize scanned : Grammar.scan.run (.start text) = result at tells ⊢
    generalize Meta.program.reply (.call Meta.startRule) (.start text) = reply at tells ⊢
    cases tells with
    | miss => simp [Reply.result]
    | @item value found after found_eq =>
        obtain ⟨chars, reads, -⟩ := Grammar.scan_ensures _ _ _ scanned
        have ended : after.rest = [] ↔ after.offset = text.utf8ByteSize := by
          rw [← Cursor.Before.at_end_iff ⟨chars, reads⟩, Cursor.atEnd, List.isEmpty_iff]
        by_cases whole : after.offset = text.utf8ByteSize
        · simp [Reply.result, Context.offset, whole, found_eq, ended, Except.mapError]
        · simp [Reply.result, Context.offset, whole, ended]

end Grammar

end TracedGrammar

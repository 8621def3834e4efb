import TracedGrammar.Proofs.Document.RoundTrip

/-!
# Displayed classes are read back

A class is displayed in the syntax of grammar documents. As the only part of a rule it is read back
as a class that means the same: negated or not, with the same items in the same order.

A character with a meaning of its own is displayed behind a backslash, and so are line ends and
tabs. Hence no item is displayed with a hyphen or a caret in front, which would make a range of it
and the character before, or turn the class around (`CharClass.head_display_ne`).

The theorem to read first is `read_class`.
-/

namespace TracedGrammar

open Scanner (many many1)

/-- A range has its lower bound first. -/
def ClassItem.IsOrdered : ClassItem → Prop
  | single _ => True
  | range low high => low ≤ high

namespace CharClass

/-- A class put together from characters and ranges that have their lower bound first, and turned
around at will. -/
inductive Built : CharClass → Prop where
  | empty : Built empty
  | addChars {set} (built : Built set) (chars : String) : Built (set.addChars chars)
  | addRange {set low high} (built : Built set) (ordered : low ≤ high) :
      Built (set.addRange low high)
  | addSingle {set} (built : Built set) (char : Char) : Built (set.add (.single char))
  | negate {set} (built : Built set) : Built set.negate

variable {set : CharClass}

theorem Built.ordered (h : Built set) : ∀ item ∈ set.items, item.IsOrdered := by
  induction h with
  | empty => simp [CharClass.empty]
  | addChars _ chars ih =>
      refine List.forall_mem_append.mpr ⟨ih, fun item among => ?_⟩
      obtain ⟨char, -, rfl⟩ := List.mem_map.mp among
      trivial
  | addRange _ ordered ih =>
      exact List.forall_mem_append.mpr ⟨ih, List.forall_mem_singleton.mpr ordered⟩
  | addSingle _ char ih =>
      exact List.forall_mem_append.mpr ⟨ih, List.forall_mem_singleton.mpr trivial⟩
  | negate _ ih => exact ih

/-- A character is displayed behind a backslash, or as itself if it has no meaning of its own. -/
theorem escape_char_cases (char : Char) :
    (∃ letter, escapeChar char = ['\\', letter] ∧ (SourceChar.mk letter true ⟨0, 0⟩).value = char ∧
      (empty.addChars "\\[]rnt^-").accepts letter = true) ∨
    escapeChar char = [char] ∧ char ∉ ['\\', '[', ']', '^', '-'] := by
  unfold escapeChar
  split
  · rename_i special
    simp only [Bool.or_eq_true, decide_eq_true_eq] at special
    rcases special with (((rfl | rfl) | rfl) | rfl) | rfl <;> exact .inl ⟨_, rfl, rfl, rfl⟩
  · rename_i plain
    split
    · rename_i same
      exact .inl ⟨'r', rfl, same.symm, rfl⟩
    · split
      · rename_i same
        exact .inl ⟨'n', rfl, same.symm, rfl⟩
      · split
        · rename_i same
          exact .inl ⟨'t', rfl, same.symm, rfl⟩
        · exact .inr ⟨rfl, by simpa [and_assoc] using plain⟩

/-- No character is displayed with a caret or a hyphen in front. -/
theorem escape_char_eq_cons (char : Char) :
    ∃ first others, escapeChar char = first :: others ∧ first ≠ '^' ∧ first ≠ '-' := by
  rcases escape_char_cases char with ⟨letter, displayed, -⟩ | ⟨displayed, plain⟩
  · exact ⟨'\\', [letter], displayed, by decide, by decide⟩
  · refine ⟨char, [], displayed, ?_, ?_⟩
    · exact fun caret => plain (by simp [caret])
    · exact fun hyphen => plain (by simp [hyphen])

theorem head_display_ne (items : List ClassItem) {mark : Char} (special : mark = '^' ∨ mark = '-') :
    (items.flatMap displayItem).head? ≠ some mark := by
  cases items with
  | nil => simp
  | cons item items =>
      have start : ∃ first others, displayItem item = first :: others ∧
          first ≠ '^' ∧ first ≠ '-' := by
        cases item with
        | single char => exact escape_char_eq_cons char
        | range low high =>
            obtain ⟨first, others, displayed, no_mark⟩ := escape_char_eq_cons low
            exact ⟨first, _, by rw [displayItem, displayed]; rfl, no_mark⟩
      obtain ⟨first, others, displayed, no_caret, no_hyphen⟩ := start
      rw [List.flatMap_cons, displayed]
      rintro ⟨⟩
      rcases special with rfl | rfl
      · exact no_caret rfl
      · exact no_hyphen rfl

end CharClass

open CharClass (escapeChar displayItem)

/-- What is displayed of a character is a character of a class, which means it. -/
theorem SourceChar.exists_displayed (char : Char) : ∃ source : SourceChar,
    source.written = escapeChar char ∧ source.value = char ∧ source.IsLegibleInClass := by
  rcases CharClass.escape_char_cases char with
    ⟨letter, displayed, means, allowed⟩ | ⟨displayed, plain⟩
  · exact ⟨⟨letter, true, ⟨0, 0⟩⟩, displayed.symm, means, allowed⟩
  · have outside : (CharClass.empty.addChars "\\[]").accepts char = false := by
      rw [Bool.eq_false_iff, ne_eq, Scanner.accepts_addChars]
      exact fun among => plain (List.mem_append_left ['^', '-'] among)
    refine ⟨⟨char, false, ⟨0, 0⟩⟩, displayed.symm, rfl, ?_⟩
    show (CharClass.empty.addChars "\\[]").negate.accepts char = true
    rw [CharClass.accepts_negate, outside]
    rfl

namespace ClassMember

/-- What is displayed of an item is a member of a class, which means it. -/
theorem exists_displayed {item : ClassItem} (ordered : item.IsOrdered) : ∃ member : ClassMember,
    member.written = displayItem item ∧ member.compile = .ok item ∧ member.IsLegible := by
  cases item with
  | single char =>
      obtain ⟨source, written_eq, value_eq, legible⟩ := SourceChar.exists_displayed char
      exact ⟨.single source, written_eq, by rw [compile, value_eq], legible⟩
  | range low high =>
      obtain ⟨low', low_written, rfl, low_legible⟩ := SourceChar.exists_displayed low
      obtain ⟨high', high_written, rfl, high_legible⟩ := SourceChar.exists_displayed high
      refine ⟨.range low' high' ⟨0, 0⟩, ?_, if_neg (Char.not_lt.mpr ordered),
        low_legible, high_legible⟩
      rw [written, low_written, high_written, displayItem]

/-- What is displayed of items are members that can be read one after the other. -/
theorem exists_displayed_all {items : List ClassItem} (ordered : ∀ item ∈ items, item.IsOrdered) :
    ∃ members : List ClassMember, members.flatMap written = items.flatMap displayItem ∧
      members.mapM compile = .ok items ∧ AreLegible members := by
  induction items with
  | nil => exact ⟨[], rfl, rfl, trivial⟩
  | cons item items ih =>
      obtain ⟨member, written_eq, compiled, legible⟩ :=
        exists_displayed (ordered item List.mem_cons_self)
      obtain ⟨members, all_written, all_compiled, all_legible⟩ :=
        ih fun other among => ordered other (.tail _ among)
      refine ⟨member :: members, ?_, ?_, legible, all_legible, ?_⟩
      · rw [List.flatMap_cons, List.flatMap_cons, written_eq, all_written]
      · rw [List.mapM_cons, compiled, all_compiled]
        rfl
      · intro char _ hyphen
        rw [all_written] at hyphen
        exact absurd hyphen (CharClass.head_display_ne items (.inr rfl))

end ClassMember

/-- A rule that can be read is read back from its written form, up to places in the text. -/
theorem Rule.read_of_legible {rule : Rule} (legible : rule.IsLegible) :
    ∃ grammar again, Grammar.read rule.display = .ok grammar ∧ grammar.rules = [again] ∧
      again.eraseSpans = rule.eraseSpans := by
  have start := Rule.starts legible
  have none_more : (many Rule.scan).Yields [] (· = []) [] := fun offset =>
    ⟨[], offset, by rw [Scanner.run_many Rule.scan_finds.eats, Rule.scan_fails_at_end offset], rfl⟩
  have rule_scanned := Rule.scan_yields legible []
  rw [List.append_nil] at rule_scanned
  have rules_scanned : (many1 Rule.scan).Yields rule.written
      (fun rules => ∃ again, rules = [again] ∧ again.eraseSpans = rule.eraseSpans) [] := by
    refine .bind rule_scanned fun again same => .bind none_more fun _ none_left => .pure ?_
    exact ⟨again, by rw [none_left], same⟩
  have blanks_scanned := Scanner.blanks_yields rule.written
  rw [start.after_gap_eq] at blanks_scanned
  have grammar_scanned : Grammar.scan.Yields rule.written
      (fun grammar => ∃ again, grammar.rules = [again] ∧ again.eraseSpans = rule.eraseSpans) [] :=
    .spanned <| .bind blanks_scanned fun _ _ => .bind rules_scanned fun rules found =>
      .pure fun _ => found
  obtain ⟨grammar, read, again, rules_eq, same⟩ :=
    Grammar.read_of_yields grammar_scanned start.not_blank
  exact ⟨grammar, again, read, rules_eq, same⟩

/-- The rule whose only part is a class of the given members. -/
def Rule.ofMembers (inverted : Bool) (members : List ClassMember) : Rule :=
  .sequence ⟨"r", ⟨0, 0⟩⟩ [⟨none, false, .charClass inverted members ⟨0, 0⟩, none, ⟨0, 0⟩⟩] ⟨0, 0⟩

/-- A rule that is the same but for places has the same class as its only part. -/
theorem Rule.exists_members {inverted : Bool} {members : List ClassMember} {set : CharClass}
    {again : Rule} (same : again.eraseSpans = (ofMembers inverted members).eraseSpans)
    (means : CharClass.ofMembers inverted members = .ok set) :
    ∃ name part span members' place, again = .sequence name [part] span ∧ name.name = "r" ∧
      part.atom = .charClass inverted members' place ∧
      CharClass.ofMembers inverted members' = .ok set := by
  cases again with
  | union name cases span => cases same
  | sequence name parts span =>
      simp only [ofMembers, eraseSpans, List.map_cons, List.map_nil, sequence.injEq] at same
      obtain ⟨name_eq, parts_eq, -⟩ := same
      obtain ⟨part, rfl, part_eq⟩ := List.map_eq_singleton_iff.mp parts_eq
      obtain ⟨field, stringify, atom, suffix, place⟩ := part
      have atom_eq := congrArg Part.atom part_eq
      cases atom with
      | reference | literal => cases atom_eq
      | charClass inverted' members' place' =>
          simp only [Part.eraseSpans, Atom.eraseSpans, Atom.charClass.injEq, and_true] at atom_eq
          obtain ⟨rfl, members_eq⟩ := atom_eq
          have seen := CharClass.ofMembers_erase_spans inverted' members'
          rw [members_eq, CharClass.ofMembers_erase_spans, means] at seen
          obtain ⟨_, again_means, rfl⟩ := seen_eq_ok_iff.mp seen.symm
          exact ⟨name, _, span, members', place', rfl, congrArg Ident.name name_eq, rfl,
            again_means⟩

/-- A displayed class reads back as itself. Between an equals sign and a semicolon it is read as a
document with one rule, whose only part is a class, and the members of that class mean the class
that was displayed. -/
theorem read_class {set : CharClass} (built : set.Built) :
    ∃ grammar name part span inverted members place,
      Grammar.read ("r = " ++ set.display ++ ";") = .ok grammar ∧
        grammar.rules = [.sequence name [part] span] ∧ name.name = "r" ∧
        part.atom = .charClass inverted members place ∧
        CharClass.ofMembers inverted members = .ok set := by
  obtain ⟨members, written_eq, compiled, members_legible⟩ :=
    ClassMember.exists_displayed_all built.ordered
  have legible : (Rule.ofMembers set.isNegated members).IsLegible := by
    refine ⟨by decide, by simp, fun part among => ?_⟩
    cases List.mem_singleton.mp among
    refine ⟨fun field none_eq => absurd none_eq (by simp), members_legible, fun _ => ?_⟩
    rw [written_eq]
    exact CharClass.head_display_ne set.items (.inl rfl)
  have display_eq : (Rule.ofMembers set.isNegated members).display =
      "r = " ++ set.display ++ ";" := by
    rw [← String.toList_inj]
    simp [Rule.display, Rule.ofMembers, Rule.written, Part.written, Atom.written, Ident.written,
      CharClass.display, written_eq]
  have means : CharClass.ofMembers set.isNegated members = .ok set := by
    rw [CharClass.ofMembers_eq, compiled]
    rfl
  obtain ⟨grammar, again, read, rules_eq, same⟩ := Rule.read_of_legible legible
  obtain ⟨name, part, span, members', place, rfl, name_eq, atom_eq, again_means⟩ :=
    Rule.exists_members same means
  rw [display_eq] at read
  exact ⟨grammar, name, part, span, set.isNegated, members', place, read, rules_eq, name_eq,
    atom_eq, again_means⟩

/-- A negated class that needs escapes: a range up to a hyphen, a caret, a bracket and a line end. -/
def markedClass : CharClass :=
  (((CharClass.empty.addRange ' ' '-').addChars "^]").add (.single '\n')).negate

theorem read_marked_class : markedClass.Built ∧ markedClass.display = "[^ -\\-\\^\\]\\n]" ∧
    ∃ grammar name part span inverted members place,
      Grammar.read ("r = " ++ markedClass.display ++ ";") = .ok grammar ∧
        grammar.rules = [.sequence name [part] span] ∧ name.name = "r" ∧
        part.atom = .charClass inverted members place ∧
        CharClass.ofMembers inverted members = .ok markedClass := by
  have built : markedClass.Built :=
    .negate (.addSingle (.addChars (.addRange .empty (by decide)) "^]") '\n')
  exact ⟨built, by decide, read_class built⟩

end TracedGrammar

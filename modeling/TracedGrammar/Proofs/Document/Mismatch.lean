import TracedGrammar.Proofs.Document.Outcome
import TracedGrammar.Proofs.Document.Truncation

/-!
# A mismatch points at the first rule that cannot be read

A document that is not read is reported with a place in it. No rule can be read there
(`Meta.HasNoRule`), and the text before that place is read without what follows it: it consists of
blanks, or it is a document with the rules that were read before the mismatch.

The theorem to read first is `mismatch_points_at_rule`.
-/

namespace TracedGrammar

open Scanner (many many1)

/-- Behind as many items as there are is no further one. -/
theorem Scanner.missed_behind_many {α : Type} {scan : Scanner α} (eats : scan.Eats)
    {cursor after : Cursor} {items : List α}
    (scanned : (many scan).run cursor = some (items, after)) : scan.run after = none := by
  induction items generalizing cursor with
  | nil =>
      rcases (run_many_eq_some eats).mp scanned with ⟨missed, -, rfl⟩ | ⟨_, _, _, -, -, ⟨⟩⟩
      exact missed
  | cons item items ih =>
      rcases (run_many_eq_some eats).mp scanned with ⟨-, ⟨⟩, -⟩ | ⟨_, _, _, -, more, ⟨⟩⟩
      exact ih more

namespace Grammar

variable {grammar : Grammar} {cursor after : Cursor}

/-- A grammar that is scanned has a first rule, behind the blanks, and no rule can be scanned behind
the last one. -/
theorem rules_of_scan (scanned : Grammar.scan.run cursor = some (grammar, after)) :
    grammar.rules ≠ [] ∧ (∃ found, Rule.scan.run cursor.behindGap = some found) ∧
      Rule.scan.run after = none := by
  obtain ⟨laid, inner, rfl⟩ := Scanner.run_spanned_eq_some.mp scanned
  obtain ⟨_, begun, blanks_scanned, behind⟩ := Scanner.run_bind_eq_some.mp inner
  rw [Scanner.run_blanks] at blanks_scanned
  cases blanks_scanned
  obtain ⟨rules, ended, rules_scanned, same⟩ := Scanner.run_bind_eq_some.mp behind
  cases same
  obtain ⟨rule, middle, first, rest⟩ := Scanner.run_bind_eq_some.mp rules_scanned
  obtain ⟨others, stop, more, same⟩ := Scanner.run_bind_eq_some.mp rest
  cases same
  exact ⟨by simp, ⟨_, first⟩, Scanner.missed_behind_many Rule.scan_finds.eats more⟩

/-- A text in which a grammar is scanned is not blank. -/
theorem not_blank_of_scan {text : String}
    (scanned : Grammar.scan.run (.start text) = some (grammar, after)) :
    Text.isBlank text = false := by
  obtain ⟨-, ⟨found, first⟩, -⟩ := rules_of_scan scanned
  rw [Bool.eq_false_iff]
  intro blank
  rw [Text.isBlank, List.all_eq_true] at blank
  have no_rule : Rule.scan.Fails (afterGap text.toList) := by
    refine Rule.scan_fails fun char among => ?_
    rw [Bool.eq_false_iff]
    intro start
    have among_text := (List.dropWhile_sublist isGap).subset (List.mem_of_mem_head? among)
    cases (not_blank_of_name_start start).symm.trans (blank char among_text)
  cases first.symm.trans (no_rule _)

end Grammar

namespace Meta

/-- In the grammar of grammar documents, the rule for rules does not match at an offset of a text,
inside any number of calls that leaves room for it. -/
def HasNoRule (text : String) (offset : Nat) : Prop :=
  ∀ depth, depth + 9 ≤ program.maxDepth → ∃ captured stop,
    program.reply (.call "rule") ⟨.seek text offset, depth⟩ = .ok (.failed captured) stop

theorem hasNoRule_of_miss {text : String} {cursor : Cursor}
    (begun : (Cursor.start text).Before cursor) (missed : Rule.scan.run cursor = none) :
    HasNoRule text cursor.offset := by
  intro depth enough
  have tells := follows_rule enough cursor
  rw [missed, ← Program.reply_eq] at tells
  rw [← begun.stands_in.seek_eq]
  generalize program.reply (.call "rule") ⟨cursor, depth⟩ = reply at tells ⊢
  cases tells with
  | miss => exact ⟨_, _, rfl⟩

end Meta

/-- A cursor that no rule is scanned at splits a text into what was read and what is left. -/
theorem Meta.split_at_miss {text : String} {chars : List Char} {cursor : Cursor}
    (reads : (Cursor.start text).Reads chars cursor) (missed : Rule.scan.run cursor = none) :
    ∃ front back, text = front ++ back ∧ front.toList = chars ∧
      front.utf8ByteSize = cursor.offset ∧ HasNoRule text cursor.offset :=
  ⟨_, _, reads.text_eq, String.toList_ofList, reads.offset_eq_size,
    hasNoRule_of_miss ⟨chars, reads⟩ missed⟩

/-- The text before the place where scanning ends is read as the grammar that was scanned. -/
theorem Grammar.read_front {front : String} {back : List Char} {grammar : Grammar} {stop : Nat}
    (scanned : Grammar.scan.run ⟨0, front.toList ++ back⟩ = some (grammar, ⟨stop, back⟩)) :
    Grammar.read front = .ok grammar := by
  have cut : Grammar.scan.run (.start front) = some (grammar, ⟨stop, []⟩) :=
    Grammar.cuts_scan.cut scanned rfl
  exact read_of_scan (not_blank_of_scan cut) cut rfl

/-- A document that is not read is reported as a syntax error at an offset where the rule for rules
does not match. If the document is said not to match, the text before that offset consists of
blanks. If it is said to be matched in part, the text before that offset is read as a grammar with a
rule at least; this grammar is the one that was matched in all of the document, with its places. -/
theorem mismatch_points_at_rule {name text : String} {diagnostic : Diagnostic}
    (failed : Grammar.readNamed name text = .error diagnostic) :
    ∃ front back, text = front ++ back ∧ diagnostic.kind = .parse ∧
      diagnostic.span = some (.point front.utf8ByteSize) ∧
      Meta.HasNoRule text front.utf8ByteSize ∧
      (diagnostic.message = "input does not match rule 'grammar'" ∧
          (∀ char ∈ front.toList, char ∈ [' ', '\t', '\r', '\n']) ∨
        diagnostic.message = "rule 'grammar' stopped before the end of input" ∧
          ∃ value grammar,
            Meta.program.run Meta.startRule text = .ok (.matched value, front.utf8ByteSize) ∧
              Grammar.ofValue value = .ok grammar ∧ grammar.rules ≠ [] ∧
                Grammar.read front = .ok grammar) := by
  have not_blank : Text.isBlank text = false := by
    rw [Bool.eq_false_iff]
    intro blank
    rw [Grammar.readNamed, Grammar.readWith, if_pos blank] at failed
    cases failed
  cases scanned : Grammar.scan.run (.start text) with
  | none =>
      cases failed.symm.trans (Grammar.readNamed_of_miss not_blank scanned name)
      obtain ⟨front, back, text_eq, front_eq, size_eq, no_rule⟩ :=
        Meta.split_at_miss (Cursor.reads_gap _) (Rule.scan_of_grammar_miss scanned)
      refine ⟨front, back, text_eq, rfl, by rw [size_eq]; rfl, by rwa [size_eq], .inl ⟨rfl, ?_⟩⟩
      intro char among
      rw [front_eq] at among
      simpa using eq_of_is_gap (List.mem_takeWhile_imp among)
  | some found =>
      obtain ⟨grammar, stop, left⟩ := found
      obtain ⟨nonempty, -, missed⟩ := Grammar.rules_of_scan scanned
      obtain ⟨chars, reads, -⟩ := Grammar.scan_ensures _ _ _ scanned
      have some_left : left ≠ [] := by
        rintro rfl
        cases failed.symm.trans (Grammar.readNamed_of_scan not_blank scanned rfl name)
      cases failed.symm.trans (Grammar.readNamed_of_rest not_blank scanned some_left name)
      obtain ⟨front, back, text_eq, front_eq, size_eq, no_rule⟩ := Meta.split_at_miss reads missed
      obtain ⟨value, ran, means⟩ := Grammar.run_of_scan scanned
      refine ⟨front, back, text_eq, rfl, by rw [size_eq]; rfl, by rwa [size_eq],
        .inr ⟨rfl, value, grammar, by rw [size_eq]; exact ran, means, nonempty, ?_⟩⟩
      have front_scanned : Grammar.scan.run ⟨0, front.toList ++ left⟩ =
          some (grammar, ⟨stop, left⟩) := by
        rw [front_eq, ← reads.rest_eq]
        exact scanned
      exact Grammar.read_front front_scanned

/-- A document whose second rule is not finished. -/
def brokenText : String :=
  "a='x'; b ="

/-- The grammar of the first rule of the broken text. -/
def unbrokenGrammar : Grammar where
  rules :=
    [.sequence ⟨"a", ⟨0, 1⟩⟩
      [⟨none, false, .literal .single [⟨'x', false, ⟨3, 4⟩⟩] ⟨2, 5⟩, none, ⟨2, 5⟩⟩] ⟨0, 7⟩]
  span := ⟨0, 7⟩

/-- The report points at the name of the second rule, and what stands before is read alone. -/
theorem mismatch_of_broken : ∃ diagnostic, Grammar.readNamed "g" brokenText = .error diagnostic ∧
    diagnostic.message = "rule 'grammar' stopped before the end of input" ∧
    diagnostic.span = some (.point 7) ∧ Meta.HasNoRule brokenText 7 ∧
    Grammar.read "a='x'; " = .ok unbrokenGrammar := by
  have scanned : Grammar.scan.run (.start brokenText) =
      some (unbrokenGrammar, ⟨7, ['b', ' ', '=']⟩) := by cbv
  have failed := Grammar.readNamed_of_rest (by decide) scanned (by simp) "g"
  obtain ⟨front, back, text_eq, -, span_eq, no_rule, read⟩ := mismatch_points_at_rule failed
  have point_eq : Span.point 7 = .point front.utf8ByteSize := Option.some.inj span_eq
  have size_eq : front.utf8ByteSize = 7 := (congrArg Span.start point_eq).symm
  have front_eq : front = "a='x'; " := by
    have taken := takeBytes_append front.toList back.toList
    rw [String.utf8Len_toList, size_eq, ← String.toList_append, ← text_eq] at taken
    exact String.toList_inj.mp taken.symm
  rw [size_eq] at no_rule
  rcases read with ⟨no_match, -⟩ | ⟨-, value, grammar, ran, means, -, read⟩
  · exact absurd no_match (by decide)
  · obtain ⟨value', ran', means'⟩ := Grammar.run_of_scan scanned
    cases (size_eq ▸ ran).symm.trans ran'
    cases means.symm.trans means'
    exact ⟨_, failed, rfl, rfl, no_rule, front_eq ▸ read⟩

end TracedGrammar

import TracedGrammar.Proofs.Document.RoundTrip
import TracedGrammar.Proofs.Trace.Boundaries

/-!
# Reading a document has two results

A document is read, or there is a report of the place where it goes wrong. The grammar of grammar
documents never ends in a fault, since it follows the scanner of grammars on every text
(`Grammar.tells_of_reply`), and each value that it yields stands for a grammar.

The report points to a character of the document. If rules were read it is the one behind them, and
if none were it is the first one that is not a blank (`Meta.reply_of_miss`); a document without such
a character is blank and has no rules.

The theorem to read first is `read_outcome`.
-/

namespace TracedGrammar

open Scanner (many manyWithin run_many_within)
open TracedGrammar.Expr (runWith)

/-- The report is that of a mismatch in a document with a name. It points to a boundary before a
character of the document. -/
structure Diagnostic.IsMismatch (name text : String) (diagnostic : Diagnostic) : Prop where
  kind_eq : diagnostic.kind = .parse
  source_eq : diagnostic.source = some ⟨name, text⟩
  inside : ∃ offset, diagnostic.span = some (.point offset) ∧ IsBoundary text offset ∧
    offset < text.utf8ByteSize

theorem Cursor.reads_gap (cursor : Cursor) :
    cursor.Reads (cursor.rest.takeWhile isGap) cursor.behindGap :=
  ⟨List.takeWhile_append_dropWhile.symm, rfl⟩

theorem Cursor.before_behind_gap (cursor : Cursor) : cursor.Before cursor.behindGap :=
  ⟨_, cursor.reads_gap⟩

/-- A text that consists of blanks is blank. -/
theorem Text.isBlank_of_gap {text : String} (nothing_left : afterGap text.toList = []) :
    Text.isBlank text = true := by
  rw [Text.isBlank, List.all_eq_true]
  intro char among
  have gap := List.dropWhile_eq_nil_iff.mp nothing_left char among
  rcases eq_of_is_gap gap with rfl | rfl | rfl | rfl <;> rfl

/-- A repetition whose first item is missing stays where it began. -/
theorem Program.Follows.run_one_or_more_of_miss {α : Type} {program : Program} {depth : Nat}
    {body : Expr} {means : Value → α → Prop} {scan : Scanner α} {cursor : Cursor}
    (h : program.Follows depth body means scan) (missed : scan.run cursor = none) :
    runWith (program.callsAt depth) (.oneOrMore body) ⟨cursor, depth⟩ =
      .ok (.failed none) ⟨cursor, depth⟩ := by
  have tells := h cursor
  rw [missed] at tells
  rw [Expr.oneOrMore, runWith, Matcher.repeatItems]
  generalize runWith (program.callsAt depth) body ⟨cursor, depth⟩ = reply at tells ⊢
  cases tells with
  | miss => rfl

/-- Reading as many items as there are does not fail. -/
theorem Scanner.exists_many {α : Type} (scan : Scanner α) (cursor : Cursor) :
    ∃ items after, (many scan).run cursor = some (items, after) := by
  suffices ∀ budget, ∃ items after, (manyWithin scan budget).run cursor = some (items, after) from
    this cursor.rest.length
  intro budget
  induction budget generalizing cursor with
  | zero => exact ⟨[], cursor, rfl⟩
  | succ budget ih =>
      rw [run_many_within]
      cases scan.run cursor with
      | none => exact ⟨[], cursor, rfl⟩
      | some found =>
          obtain ⟨others, last, rest⟩ := ih found.2
          exact ⟨found.1 :: others, last, by simp only [rest, Option.map_some]⟩

/-- Where no grammar is scanned, no rule is scanned behind the first blanks. -/
theorem Rule.scan_of_grammar_miss {cursor : Cursor} (missed : Grammar.scan.run cursor = none) :
    Rule.scan.run cursor.behindGap = none := by
  rw [Grammar.scan, Scanner.run_spanned, Option.map_eq_none_iff] at missed
  cases scanned : Rule.scan.run cursor.behindGap with
  | none => rfl
  | some found =>
      obtain ⟨others, last, rest⟩ := Scanner.exists_many Rule.scan found.2
      simp only [StateT.run_bind, Scanner.run_blanks, Scanner.many1, scanned, rest,
        Option.bind_eq_bind, Option.bind_some, StateT.run_pure] at missed
      cases missed

/-- The grammar of grammar documents stops at the first character that is not a blank if there is no
rule. -/
theorem Meta.reply_of_miss {text : String} (missed : Grammar.scan.run (.start text) = none) :
    ∃ captured, program.reply (.call startRule) (.start text) =
      .ok (.failed captured) ⟨(Cursor.start text).behindGap, 0⟩ := by
  have gap_follows : program.Follows 1 _ _ _ := follows_blanks (by decide)
  have rule_follows : program.Follows 1 _ _ _ := follows_rule (by decide)
  have gap_tells := gap_follows (.start text)
  rw [Scanner.run_blanks] at gap_tells
  generalize gap_replied : runWith _ _ _ = reply at gap_tells
  cases gap_tells with
  | @item value =>
      have resolved : program.rules.resolve? startRule = some (.tagged "grammar"
          (.append (.append .empty none (.call "_")) (some "rules") (.oneOrMore (.call "rule")))) :=
        rfl
      -- behind the blanks the repetition of rules has no first item, so it ends where it began
      have no_rule := rule_follows.run_one_or_more_of_miss (Rule.scan_of_grammar_miss missed)
      have gap_matched : runWith (program.callsAt 1) (.append .empty none (.call "_"))
          ⟨.start text, 1⟩ =
            .ok (.matched (.record .empty)) ⟨(Cursor.start text).behindGap, 1⟩ := by
        rw [Expr.run_with_append _ _ _ _ _ rfl, gap_replied]
        rfl
      refine ⟨some { Record.empty with tag := some "grammar" }, ?_⟩
      rw [Context.start, Program.reply_eq, runWith,
        Program.calls_at_of_resolved resolved (by decide), Expr.run_with_tagged,
        Expr.run_with_append _ _ _ _ _ gap_matched, no_rule]
      rfl

namespace Grammar

variable {text : String}

/-- Matching a text with the grammar of grammar documents does not end in a fault. -/
theorem exists_meta_reply (text : String) : ∃ outcome context,
    Meta.program.reply (.call Meta.startRule) (.start text) = .ok outcome context := by
  have tells := tells_of_reply text
  generalize Grammar.scan.run (.start text) = result at tells
  generalize Meta.program.reply (.call Meta.startRule) (.start text) = reply at tells ⊢
  cases tells with
  | item => exact ⟨_, _, rfl⟩
  | miss => exact ⟨_, _, rfl⟩

/-- Each value of a whole text stands for a grammar. -/
theorem exists_of_parse {value : Value}
    (parsed : Meta.program.parse Meta.startRule text = .ok value) :
    ∃ grammar, Grammar.ofValue value = .ok grammar := by
  have tells := tells_of_reply text
  have declared : Meta.program.rules.resolve? Meta.startRule = some _ := rfl
  rw [Program.parse, run_of_declared declared] at parsed
  generalize Grammar.scan.run (.start text) = result at tells
  generalize Meta.program.reply (.call Meta.startRule) (.start text) = reply at tells parsed
  cases tells with
  | miss => cases parsed
  | @item value' grammar after means =>
      simp only [Reply.result] at parsed
      split at parsed
      · cases parsed
        exact ⟨grammar, means⟩
      · cases parsed

/-- A rejection before a character of a text is reported as a mismatch. -/
theorem is_mismatch_of_rejection {cursor : Cursor} (begun : (Cursor.start text).Before cursor)
    (left : cursor.rest ≠ []) (name : String) (matched : Bool) :
    ((Rejection.diagnostic ⟨Meta.startRule, text, cursor.offset, matched⟩).replaceSource
      ⟨name, text⟩).IsMismatch name text := by
  have boundary := begun.stands_in.boundary
  have not_whole : cursor.offset ≠ text.utf8ByteSize := by
    rwa [ne_eq, ← begun.at_end_iff, Cursor.atEnd, List.isEmpty_iff]
  have inside := Nat.lt_of_le_of_ne boundary.le_size not_whole
  cases matched <;> exact ⟨rfl, rfl, cursor.offset, rfl, boundary, inside⟩

/-- Matching a text in which a grammar is scanned yields a value that stands for the grammar. -/
theorem run_of_scan {grammar : Grammar} {after : Cursor}
    (scanned : Grammar.scan.run (.start text) = some (grammar, after)) :
    ∃ value, Meta.program.run Meta.startRule text = .ok (.matched value, after.offset) ∧
      Grammar.ofValue value = .ok grammar := by
  have tells := tells_of_reply text
  have declared : Meta.program.rules.resolve? Meta.startRule = some _ := rfl
  rw [run_of_declared declared]
  rw [scanned] at tells
  generalize Meta.program.reply (.call Meta.startRule) (.start text) = reply at tells ⊢
  cases tells with
  | item means => exact ⟨_, rfl, means⟩

/-- A document in which no grammar is scanned is rejected behind its first blanks. -/
theorem readNamed_of_miss (not_blank : Text.isBlank text = false)
    (missed : Grammar.scan.run (.start text) = none) (name : String) :
    readNamed name text = .error ((Rejection.diagnostic
      ⟨Meta.startRule, text, (Cursor.start text).behindGap.offset, false⟩).replaceSource
        ⟨name, text⟩) := by
  obtain ⟨captured, replied⟩ := Meta.reply_of_miss missed
  have declared : Meta.program.rules.resolve? Meta.startRule = some _ := rfl
  rw [readNamed, readWith, not_blank, if_neg Bool.false_ne_true, Program.parse,
    run_of_declared declared, replied]
  rfl

/-- A document in which a grammar is scanned is rejected behind the grammar if anything is left. -/
theorem readNamed_of_rest {grammar : Grammar} {after : Cursor}
    (not_blank : Text.isBlank text = false)
    (scanned : Grammar.scan.run (.start text) = some (grammar, after)) (left : after.rest ≠ [])
    (name : String) :
    readNamed name text = .error ((Rejection.diagnostic
      ⟨Meta.startRule, text, after.offset, true⟩).replaceSource ⟨name, text⟩) := by
  obtain ⟨value, ran, -⟩ := run_of_scan scanned
  obtain ⟨chars, reads, -⟩ := Grammar.scan_ensures _ _ _ scanned
  have not_whole : after.offset ≠ text.utf8ByteSize := by
    rwa [ne_eq, ← Cursor.Before.at_end_iff ⟨chars, reads⟩, Cursor.atEnd, List.isEmpty_iff]
  rw [readNamed, readWith, not_blank, if_neg Bool.false_ne_true, Program.parse, ran]
  simp only [if_neg not_whole]

/-- A document that is not read is reported as a mismatch. -/
theorem read_or_mismatch (name text : String) :
    (∃ grammar, readNamed name text = .ok grammar) ∨
      ∃ diagnostic, readNamed name text = .error diagnostic ∧ diagnostic.IsMismatch name text := by
  cases blank : Text.isBlank text with
  | true => exact .inl ⟨_, by rw [readNamed, readWith, if_pos blank]⟩
  | false =>
      cases scanned : Grammar.scan.run (.start text) with
      | none =>
          have left : (Cursor.start text).behindGap.rest ≠ [] := fun nothing_left =>
            Bool.false_ne_true (blank.symm.trans (Text.isBlank_of_gap nothing_left))
          exact .inr ⟨_, readNamed_of_miss blank scanned name,
            is_mismatch_of_rejection (Cursor.before_behind_gap _) left name false⟩
      | some found =>
          obtain ⟨grammar, after⟩ := found
          obtain ⟨chars, reads, -⟩ := Grammar.scan_ensures _ _ _ scanned
          by_cases ended : after.rest = []
          · exact .inl ⟨grammar, readNamed_of_scan blank scanned ended name⟩
          · exact .inr ⟨_, readNamed_of_rest blank scanned ended name,
              is_mismatch_of_rejection ⟨chars, reads⟩ ended name true⟩

/-- Reading a document has two results. The grammar of grammar documents is built without a misuse
of its registry. On every text it comes to an end without a fault, and each value that it yields
stands for a grammar. So a document with a name is read, or a mismatch is reported. Its source is
the document, and its place a boundary in the document before one of the characters. -/
theorem read_outcome (name text : String) :
    Program.ofList Meta.rules defaultMaxDepth = .ok Meta.program ∧
      (∃ outcome context, Meta.program.reply (.call Meta.startRule) (.start text) =
        .ok outcome context) ∧
      (∀ value, Meta.program.parse Meta.startRule text = .ok value →
        ∃ grammar, Grammar.ofValue value = .ok grammar) ∧
      ((∃ grammar, readNamed name text = .ok grammar) ∨
        ∃ diagnostic, readNamed name text = .error diagnostic ∧
          diagnostic.IsMismatch name text) :=
  ⟨rfl, exists_meta_reply text, fun _ => exists_of_parse, read_or_mismatch name text⟩

end Grammar

end TracedGrammar

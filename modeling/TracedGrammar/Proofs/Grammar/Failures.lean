import TracedGrammar.Proofs.Grammar.Adequacy
import TracedGrammar.Proofs.Grammar.RuleOrder

/-!
# What a failed rule reports

A sequence rule fails at its first part that does not match. It reports the fields of the parts
before, and leaves the cursor where that part left it (`Program.StopsAt`). What the failing part had
captured itself is lost. A union rule fails with its last case: it reports what that case reports,
and puts the cursor back to where all cases began (`Program.Misses`).

What the parts of a sequence and the cases of a union mean is taken apart first
(`Grammar.Means.exists_stop`, `Grammar.Means.last_case`); each of them replies what it means.

The theorem to read first is `report_of_failure`.
-/

namespace TracedGrammar

/-- The fields that parts add to those of a record, with a value for each part. -/
def Part.keepAll (record : Record Value) (parts : List Part) (values : List Value) : Record Value :=
  (parts.zip values).foldl (fun record (part, value) => part.keep value record) record

/-- Parts add fields only, and the record has no span before its rule matched. -/
theorem Part.span_keep_all (record : Record Value) (parts : List Part) (values : List Value) :
    (Part.keepAll record parts values).span = record.span := by
  rw [Part.keepAll]
  induction parts.zip values generalizing record with
  | nil => rfl
  | cons first _ ih =>
      obtain ⟨part, value⟩ := first
      refine (ih _).trans ?_
      show (part.keep value record).span = record.span
      rw [Part.keep]
      cases part.field <;> rfl

namespace Program

variable (program : Program)

/-- Parts match one after the other, each with a value, from one context to another. -/
inductive MatchesParts : List Part → Context → List Value → Context → Prop where
  | nil {context} : MatchesParts [] context [] context
  | cons {part parts expr context value middle values after}
      (compiled : part.compile = .ok expr)
      (matched : program.reply expr context = .ok (.matched value) middle)
      (rest : MatchesParts parts middle values after) :
      MatchesParts (part :: parts) context (value :: values) after

/-- Parts match one after the other up to one that fails; those before have added their fields to a
record by then. -/
def StopsAt (parts : List Part) (context : Context) (record : Record Value) (stop : Context) :
    Prop :=
  ∃ before part behind values middle expr lost,
    parts = before ++ part :: behind ∧ program.MatchesParts before context values middle ∧
      part.compile = .ok expr ∧ program.reply expr middle = .ok (.failed lost) stop ∧
        record = Part.keepAll .empty before values

/-- What a failed call of a rule has captured, and the context it ends in. The parts of a sequence
and the cases of a union are matched one call deeper. -/
def Misses (context : Context) (captured : Option (Record Value)) (after : Context) : Rule → Prop
  | .sequence name parts _ =>
      ∃ record stop,
        program.StopsAt parts { context with depth := context.depth + 1 } record stop ∧
          captured = some { tag := some name.name, span := none, fields := record.fields } ∧
            after = context.restore stop.cursor
  | .union _ targets _ =>
      after = context ∧ ∀ last ∈ targets.getLast?,
        ∃ stop, program.reply (.call last.name) { context with depth := context.depth + 1 } =
          .ok (.failed captured) stop

end Program

namespace Grammar

variable {grammar : Grammar} {maxDepth depth : Nat} {program : Program} {cursor after : Cursor}

/-- Parts that fail stop at one of them. -/
theorem Means.exists_stop {parts : List Part} {record reached : Record Value}
    (compiled : grammar.compile maxDepth = .ok program)
    (each : ∀ part ∈ parts, ∃ expr, part.compile = .ok expr)
    (h : grammar.Means maxDepth ⟨.parts parts record, depth, cursor⟩ (.failed (some reached))
      after) :
    ∃ before part behind values middle expr lost, parts = before ++ part :: behind ∧
      program.MatchesParts before ⟨cursor, depth⟩ values middle ∧ part.compile = .ok expr ∧
        program.reply expr middle = .ok (.failed lost) ⟨after, depth⟩ ∧
          reached = Part.keepAll record before values := by
  induction parts generalizing record cursor with
  | nil => cases h
  | cons part parts ih =>
      obtain ⟨expr, part_compiled⟩ := each part List.mem_cons_self
      cases h with
      | @parts_stop _ _ _ _ _ lost _ first =>
          exact ⟨[], part, parts, [], ⟨cursor, depth⟩, expr, lost, rfl, .nil, part_compiled,
            (first.replies compiled).part_eq part_compiled, rfl⟩
      | @parts_next _ _ _ _ _ value middle _ _ first rest =>
          obtain ⟨before, stopping, behind, values, last, stopping_expr, lost, rfl, matched,
            stopping_compiled, failed, reached_eq⟩ :=
            ih (fun other among => each other (.tail _ among)) rest
          exact ⟨part :: before, stopping, behind, value :: values, last, stopping_expr, lost, rfl,
            .cons part_compiled ((first.replies compiled).part_eq part_compiled) matched,
            stopping_compiled, failed, reached_eq⟩

/-- Cases that fail do so with the last of them, and put the cursor back. -/
theorem Means.last_case {targets : List Ident} {earlier captured : Option (Record Value)}
    (h : grammar.Means maxDepth ⟨.cases targets earlier, depth, cursor⟩ (.failed captured) after) :
    after = cursor ∧ ∀ last ∈ targets.getLast?,
      ∃ stop, grammar.Means maxDepth ⟨.rule last.name, depth, cursor⟩ (.failed captured) stop := by
  induction targets generalizing earlier with
  | nil =>
      cases h
      exact ⟨rfl, fun _ among => nomatch among⟩
  | cons target targets ih =>
      cases h with
      | @cases_next _ _ _ _ _ captured_here stop _ _ first rest =>
          obtain ⟨rfl, of_last⟩ := ih rest
          refine ⟨rfl, fun last among => ?_⟩
          cases targets with
          | nil =>
              cases among
              cases rest
              exact ⟨stop, first⟩
          | cons => exact of_last last among

/-- The parts of a rule that compiles do so too. -/
theorem parts_compiled {ident : Ident} {parts : List Part} {span : Span} {body : Expr}
    (h : Rule.compile (.sequence ident parts span) = .ok body) :
    ∀ part ∈ parts, ∃ expr, part.compile = .ok expr := by
  obtain ⟨converted, all, -⟩ := compile_sequence h
  intro part among
  obtain ⟨named, -, named_compiled⟩ := exists_related_of_mem all among
  obtain ⟨expr, part_compiled, -⟩ := map_eq_ok_iff.mp named_compiled
  exact ⟨expr, part_compiled⟩

end Grammar

/-- A rule of a compiled grammar that fails reports what it captured. For a sequence that is a
record with the name of the rule and without a span. Its fields are those of the parts before the
first one that failed, inserted in the order of the parts, and the cursor stays where that one left
it. For a union it is what the last case reports, and the cursor is back where the union began. -/
theorem report_of_failure {grammar : Grammar} {maxDepth : Nat} {program : Program} {rule : Rule}
    {context after : Context} {captured : Option (Record Value)}
    (compiled : grammar.compile maxDepth = .ok program) (declared : rule ∈ grammar.rules)
    (failed : program.reply (.call rule.name.name) context = .ok (.failed captured) after) :
    program.Misses context captured after rule := by
  obtain ⟨distinct, each⟩ := Grammar.rules_of_compiled compiled
  have found := (Grammar.rule_eq_some_iff distinct).mpr ⟨declared, rfl⟩
  obtain ⟨means, depth_eq⟩ := means_of_reply compiled failed
  have after_eq : after = context.restore after.cursor := by rw [Context.restore, ← depth_eq]
  cases rule with
  | sequence name parts span =>
      obtain ⟨body, rule_compiled⟩ := each _ declared
      cases means with
      | sequence_miss same below inner =>
          cases found.symm.trans same
          obtain ⟨before, part, behind, values, middle, expr, lost, split, matched, part_compiled,
            part_failed, rfl⟩ := inner.exists_stop compiled (Grammar.parts_compiled rule_compiled)
          have no_span := Part.span_keep_all .empty before values
          refine ⟨_, _, ⟨before, part, behind, values, middle, expr, lost, split, matched,
            part_compiled, part_failed, rfl⟩, ?_, after_eq⟩
          rw [no_span]
          rfl
      | union same => cases found.symm.trans same
  | union name targets span =>
      cases means with
      | sequence_miss same => cases found.symm.trans same
      | union same below inner =>
          cases found.symm.trans same
          obtain ⟨stop_eq, of_last⟩ := inner.last_case
          refine ⟨by rw [after_eq, stop_eq]; rfl, fun last among => ?_⟩
          obtain ⟨stop, meant⟩ := of_last last among
          exact ⟨_, (meant.replies compiled).call_eq⟩

/-- A word without its mark reports its letters, and the cursor stays behind them. An item that is
neither case reports the letters of a query, and the cursor is back at the start. -/
theorem report_of_item : ∃ program, itemGrammar.compile 9 = .ok program ∧
    ∃ item ∈ itemGrammar.rules, ∃ word ∈ itemGrammar.rules,
      program.reply (.call word.name.name) (.start "ab?") = .ok (.failed
        (some { tag := some "word", fields := [("text", .text "ab")] })) ⟨⟨2, ['?']⟩, 0⟩ ∧
      program.Misses (.start "ab?") (some { tag := some "word", fields := [("text", .text "ab")] })
        ⟨⟨2, ['?']⟩, 0⟩ word ∧
      program.reply (.call item.name.name) (.start "ab.") = .ok (.failed
        (some { tag := some "query", fields := [("letters", .list [.text "a", .text "b"])] }))
        (.start "ab.") ∧
      program.Misses (.start "ab.")
        (some { tag := some "query", fields := [("letters", .list [.text "a", .text "b"])] })
        (.start "ab.") item := by
  obtain ⟨program, compiled, word_failed, item_failed⟩ : ∃ program,
      itemGrammar.compile 9 = .ok program ∧
      program.reply (.call "word") (.start "ab?") = .ok (.failed
        (some { tag := some "word", fields := [("text", .text "ab")] })) ⟨⟨2, ['?']⟩, 0⟩ ∧
      program.reply (.call "item") (.start "ab.") = .ok (.failed
        (some { tag := some "query", fields := [("letters", .list [.text "a", .text "b"])] }))
        (.start "ab.") := by
    refine ⟨_, rfl, ?_, ?_⟩
    · cbv
    · cbv
  refine ⟨program, compiled, _, List.mem_cons_self, _, .tail _ List.mem_cons_self, word_failed,
    ?_, item_failed, ?_⟩
  · exact report_of_failure compiled (.tail _ List.mem_cons_self) word_failed
  · exact report_of_failure compiled List.mem_cons_self item_failed

end TracedGrammar

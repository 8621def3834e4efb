import TracedGrammar.Proofs.Grammar.Compiled
import TracedGrammar.Proofs.Grammar.Meaning
import TracedGrammar.Proofs.Trace.Matching

/-!
# Compiled grammars mean what they say

Running what a grammar compiles to has the outcome that the grammar means, at the same offset, and
ends in a fault exactly if the meaning demands an attempt that breaks. `Goal.Replies` says what
direct matching replies where a goal stands in the grammar; what an attempt means is what it replies
(`Means.replies`), and a fault keeps it from replying anything else (`Fatal.replies`).

The theorem to read first is `run_of_grammar`.
-/

namespace TracedGrammar

open TracedGrammar.Expr (runWith callsBelow)

section

variable {call : String → Matcher} {context origin : Context} {before : Expr} {reply : Reply}

/-- What has not matched so far does not match with more parts either. -/
theorem Expr.run_more_parts (h : runWith call before origin = reply)
    (missed : reply.isMatch = false) (parts : List (Option String × Expr)) :
    runWith call (parts.foldl (fun before part => append before part.1 part.2) before) origin =
      reply := by
  induction parts generalizing before with
  | nil => exact h
  | cons part parts ih =>
      refine ih ?_
      rw [runWith, h]
      cases reply with
      | ok outcome after =>
          cases outcome with
          | matched value => cases missed
          | failed captured => rfl
      | error fault after => rfl

/-- What has not failed so far is not changed by more alternatives. -/
theorem Expr.run_more_alternatives (h : runWith call before origin = reply)
    (hit : reply.isMiss = false) (alternatives : List Expr) :
    runWith call (alternatives.foldl orElse before) origin = reply := by
  induction alternatives generalizing before with
  | nil => exact h
  | cons alternative alternatives ih =>
      refine ih ?_
      rw [runWith, h]
      cases reply with
      | ok outcome after =>
          cases outcome with
          | matched value => rfl
          | failed captured => cases hit
      | error fault after => rfl

end

/-- The mark of a part applies outside its suffix, and its place does not matter. -/
theorem Part.run_wrap (call : String → Matcher) (context : Context) (part : Part) (core : Expr) :
    runWith call (part.wrap core) context =
      if part.stringify then runWith call (.stringify (Suffix.wrap core part.suffix)) context
      else runWith call (Suffix.wrap core part.suffix) context := by
  unfold Part.wrap
  cases part.stringify <;> cases part.atom <;> rfl

/-- A class accepts what its members stand for. -/
theorem accepts_of_members {inverted : Bool} {members : List ClassMember} {set : CharClass}
    (h : CharClass.ofMembers inverted members = .ok set) (char : Char) :
    set.accepts char = true ↔ ClassMember.Accept inverted members char := by
  obtain ⟨items, converted, rfl⟩ : ∃ items, members.mapM ClassMember.compile = .ok items ∧
      { isNegated := inverted, items : CharClass } = set := map_eq_ok_iff.mp h
  have covered : (items.any (·.covers char)) = true ↔ ∃ member ∈ members, member.Contains char := by
    have all := mapM_eq_ok_iff.mp converted
    clear converted h
    induction all with
    | nil => simp
    | @cons member item members items compiled _ ih =>
        rw [List.any_cons, Bool.or_eq_true, List.exists_mem_cons_iff]
        refine or_congr ?_ ih
        cases member with
        | single written =>
            cases compiled
            exact beq_iff_eq
        | range low high span =>
            rw [ClassMember.compile] at compiled
            split at compiled
            · cases compiled
            · cases compiled
              simp [ClassItem.covers, ClassMember.Contains]
  rw [ClassMember.Accept, ← covered, CharClass.accepts]
  cases items.any (·.covers char) <;> cases inverted <;> simp

namespace Grammar

/-- What direct matching replies at a context with what a goal compiles to. Further parts and cases
follow an expression for those before, and items may have any budget that is large enough. -/
def Goal.Replies (call : String → Matcher) (context : Context) (reply : Reply) : Goal → Prop
  | .rule name => call name context = reply
  | .atom subject => ∀ core, subject.compile = .ok core → runWith call core context = reply
  | .suffixed subject suffix =>
      ∀ core, subject.compile = .ok core → runWith call (Suffix.wrap core suffix) context = reply
  | .items subject atLeastOne earlier =>
      ∀ core, subject.compile = .ok core → ∀ budget : List Char,
        context.cursor.rest.length ≤ budget.length →
        Matcher.repeatItems (runWith call core) atLeastOne budget earlier.reverse context = reply
  | .part subject => ∀ expr, subject.compile = .ok expr → runWith call expr context = reply
  | .parts subjects record =>
      ∀ converted, List.Forall₂ (fun subject named => subject.compileNamed = .ok named) subjects
          converted →
        ∀ before origin, runWith call before origin = .ok (.matched (.record record)) context →
        runWith call (converted.foldl (fun before part => .append before part.1 part.2) before)
          origin = reply
  | .cases targets captured =>
      ∀ before, runWith call before context = .ok (.failed captured) context →
        runWith call ((targets.map fun target => .located target.span (.call target.name)).foldl
          .orElse before) context = reply

/-- What direct matching replies to an attempt, whatever the number of calls it allows for. -/
def Attempt.Replies (program : Program) (attempt : Attempt) (reply : Reply) : Prop :=
  ∀ levels, program.maxDepth ≤ attempt.depth + levels →
    attempt.goal.Replies (callsBelow program.rules program.maxDepth levels)
      ⟨attempt.cursor, attempt.depth⟩ reply

section

variable {call : String → Matcher} {context middle : Context} {reply : Reply} {part : Part}
  {parts : List Part} {record : Record Value} {value : Value} {target : Ident}
  {targets : List Ident} {captured last : Option (Record Value)} {atom : Atom} {atLeastOne : Bool}
  {earlier : List Value}

/-- A sequence ends at a part that does not match. -/
theorem Goal.Replies.parts_stop (h : (Goal.part part).Replies call context reply)
    (missed : reply.isMatch = false) :
    (Goal.parts (part :: parts) record).Replies call context
      (reply.join (.record record) none) := by
  intro converted all before origin matched
  cases all with
  | @cons _ named _ rest first all =>
      obtain ⟨expr, compiled, rfl⟩ := map_eq_ok_iff.mp first
      have joined := Expr.run_with_append call origin before expr (part.field.map (·.name)) matched
      rw [h expr compiled] at joined
      refine Expr.run_more_parts (joined.trans ?_) ?_ rest
      · cases reply with
        | ok outcome after => cases outcome <;> first | rfl | cases missed
        | error fault after => rfl
      · cases reply with
        | ok outcome after => cases outcome <;> first | rfl | cases missed
        | error fault after => rfl

/-- A sequence goes on after a part that matches. -/
theorem Goal.Replies.parts_next
    (h : (Goal.part part).Replies call context (.ok (.matched value) middle))
    (rest : (Goal.parts parts (part.keep value record)).Replies call middle reply) :
    (Goal.parts (part :: parts) record).Replies call context reply := by
  intro converted all before origin matched
  cases all with
  | @cons _ named _ others first all =>
      obtain ⟨expr, compiled, rfl⟩ := map_eq_ok_iff.mp first
      have joined := Expr.run_with_append call origin before expr (part.field.map (·.name)) matched
      rw [h expr compiled] at joined
      refine rest others all _ origin (joined.trans ?_)
      rw [Reply.join, Part.keep]
      cases part.field <;> rfl

/-- A repetition goes on after an item that moves the cursor. -/
theorem Goal.Replies.items_next
    (h : (Goal.atom atom).Replies call context (.ok (.matched value) middle))
    (before : context.cursor.Before middle.cursor) (moved : middle.offset ≠ context.offset)
    (rest : (Goal.items atom atLeastOne (earlier ++ [value])).Replies call middle reply) :
    (Goal.items atom atLeastOne earlier).Replies call context reply := by
  intro core core_compiled budget room
  -- the item moved the cursor, so its place in the budget was not the last one
  have fewer := before.length_lt moved
  obtain ⟨char, budget, rfl⟩ := List.exists_cons_of_length_pos
    (show 0 < budget.length by omega)
  rw [List.length_cons] at room
  have item := h core core_compiled
  have others := rest core core_compiled budget (by omega)
  rw [List.reverse_append, List.reverse_singleton, List.singleton_append] at others
  rw [Matcher.repeatItems, item]
  simp only [Context.checkProgress, moved, if_false, others]

/-- A union ends at a case that does not fail. -/
theorem Goal.Replies.cases_stop (h : (Goal.rule target.name).Replies call context reply)
    (hit : reply.isMiss = false) :
    (Goal.cases (target :: targets) captured).Replies call context reply := by
  intro before failed
  have tried := Expr.run_with_orElse call context before
    (.located target.span (.call target.name)) failed
  refine Expr.run_more_alternatives (tried.trans ?_) hit _
  have called : runWith call (.located target.span (.call target.name)) context = reply := h
  rw [← Reply.put_back_of_not_miss hit]
  exact congrArg (Reply.putBack context.cursor) called

/-- A union goes on where a case began that failed. -/
theorem Goal.Replies.cases_next
    (h : (Goal.rule target.name).Replies call context (.ok (.failed last) middle))
    (same_depth : middle.depth = context.depth)
    (rest : (Goal.cases targets last).Replies call context reply) :
    (Goal.cases (target :: targets) captured).Replies call context reply := by
  intro before failed
  have tried := Expr.run_with_orElse call context before
    (.located target.span (.call target.name)) failed
  refine rest _ (tried.trans ?_)
  have called : runWith call (.located target.span (.call target.name)) context =
    .ok (.failed last) middle := h
  show Reply.putBack context.cursor (runWith call _ context) = _
  rw [called, Reply.putBack, Context.restore, same_depth]

end

section

variable {grammar : Grammar} {maxDepth levels depth : Nat} {program : Program} {name : String}
  {rule : Rule} {cursor : Cursor} {reply : Reply} {attempt next : Attempt} {outcome : Outcome}
  {after : Cursor} {fault : Fault}

/-- A call below the limit replies what the body of the rule does. -/
theorem call_of_rule (compiled : grammar.compile maxDepth = .ok program)
    (found : grammar.rule? name = some rule) (below : depth < maxDepth)
    (enough : program.maxDepth ≤ depth + levels) :
    ∃ body left, rule.compile = .ok body ∧ program.maxDepth ≤ depth + 1 + left ∧
      callsBelow program.rules program.maxDepth levels name ⟨cursor, depth⟩ =
        (runWith (callsBelow program.rules program.maxDepth left) body
          ⟨cursor, depth + 1⟩).exitRule := by
  have limit_eq := max_depth_compiled compiled
  obtain ⟨body, rule_compiled, defined⟩ := exists_body compiled found
  -- below the limit a call leaves a level, on which the body runs
  obtain ⟨left, rfl⟩ : ∃ left, levels = left + 1 := ⟨levels - 1, by omega⟩
  refine ⟨body, left, rule_compiled, by omega, ?_⟩
  rw [← Expr.run_below_eq, callsBelow, Expr.callWith, defined]
  simp only [Context.enterRule, limit_eq, Nat.not_le.mpr below, if_false]
  cases Expr.runBelow program.rules maxDepth left body ⟨cursor, depth + 1⟩ <;> rfl

theorem replies_sequence (compiled : grammar.compile maxDepth = .ok program)
    {ident : Ident} {parts : List Part} {span : Span}
    (found : grammar.rule? name = some (.sequence ident parts span)) (below : depth < maxDepth)
    (inner : Attempt.Replies program ⟨.parts parts .empty, depth + 1, cursor⟩ reply) :
    Attempt.Replies program ⟨.rule name, depth, cursor⟩
      (reply.tag name cursor.offset).exitRule := by
  intro levels enough
  obtain ⟨body, left, rule_compiled, enough_left, called⟩ :=
    @call_of_rule _ _ _ _ _ _ _ cursor compiled found below enough
  obtain ⟨converted, all, rfl⟩ := compile_sequence rule_compiled
  have same_name : ident.name = name := name_of_rule found
  have matched := inner left enough_left converted all .empty ⟨cursor, depth + 1⟩ rfl
  show callsBelow _ _ levels name ⟨cursor, depth⟩ = _
  rw [called, Expr.run_with_tagged, Expr.sequence, matched, same_name]
  rfl

theorem replies_union (compiled : grammar.compile maxDepth = .ok program)
    {ident : Ident} {targets : List Ident} {span : Span}
    (found : grammar.rule? name = some (.union ident targets span)) (below : depth < maxDepth)
    (inner : Attempt.Replies program ⟨.cases targets none, depth + 1, cursor⟩ reply) :
    Attempt.Replies program ⟨.rule name, depth, cursor⟩ reply.exitRule := by
  intro levels enough
  obtain ⟨body, left, rule_compiled, enough_left, called⟩ :=
    @call_of_rule _ _ _ _ _ _ _ cursor compiled found below enough
  cases rule_compiled
  have tried := inner left enough_left .never rfl
  show callsBelow _ _ levels name ⟨cursor, depth⟩ = _
  rw [called, runWith, Expr.choice, tried]

/-- An attempt that means an outcome replies it. -/
theorem Means.replies (compiled : grammar.compile maxDepth = .ok program)
    (h : grammar.Means maxDepth attempt outcome after) :
    attempt.Replies program (.ok outcome ⟨after, attempt.depth⟩) := by
  induction h with
  | sequence_match found below _ ih | sequence_miss found below _ ih =>
      exact replies_sequence compiled found below ih
  | union found below _ ih => exact replies_union compiled found below ih
  | @reference target depth cursor outcome after _ ih =>
      intro levels enough core core_compiled
      cases core_compiled
      show callsBelow _ _ levels target.name ⟨cursor, depth⟩ = _
      exact ih levels enough
  | @literal_match quote chars span depth cursor after read =>
      intro levels enough core core_compiled
      cases core_compiled
      have eaten : cursor.eatLiteral? (literalValue chars) = some after :=
        Cursor.eat_literal_eq_some_iff.mpr (by rw [literalValue, String.toList_ofList]; exact read)
      simp only [runWith, eaten]
      rfl
  | @literal_miss quote chars span depth cursor other =>
      intro levels enough core core_compiled
      cases core_compiled
      have refused : cursor.eatLiteral? (literalValue chars) = none :=
        Cursor.eat_literal_eq_none_iff.mpr (by rw [literalValue, String.toList_ofList]; exact other)
      simp only [runWith, refused]
  | @class_match inverted members span depth cursor char after accepted read =>
      intro levels enough core core_compiled
      obtain ⟨set, members_compiled, rfl⟩ := map_eq_ok_iff.mp core_compiled
      have accepts := (accepts_of_members members_compiled char).mpr accepted
      have eaten : cursor.eatChar? set.accepts = some (char, after) :=
        Cursor.eat_char_eq_some_iff.mpr ⟨accepts, read⟩
      simp only [runWith, eaten]
      rfl
  | @class_miss inverted members span depth cursor refused =>
      intro levels enough core core_compiled
      obtain ⟨set, members_compiled, rfl⟩ := map_eq_ok_iff.mp core_compiled
      have none_eaten : cursor.eatChar? set.accepts = none := by
        refine Cursor.eat_char_eq_none_iff.mpr fun char among => ?_
        rw [Bool.eq_false_iff]
        intro accepts
        exact refused char among ((accepts_of_members members_compiled char).mp accepts)
      simp only [runWith, none_eaten]
  | once _ ih => exact ih
  | optional_match _ ih =>
      intro levels enough core core_compiled
      have item := ih levels enough core core_compiled
      simp only [Suffix.wrap, runWith, item]
  | optional_miss _ ih =>
      intro levels enough core core_compiled
      have item := ih levels enough core core_compiled
      simp only [Suffix.wrap, runWith, item]
      rfl
  | zero_or_more _ ih | one_or_more _ ih =>
      intro levels enough core core_compiled
      exact ih levels enough core core_compiled _ (Nat.le_refl _)
  | items_none _ ih =>
      intro levels enough core core_compiled budget room
      have item := ih levels enough core core_compiled
      rw [Matcher.repeatItems, item]
      rfl
  | @items_end atom atLeastOne earlier depth cursor captured stop kept _ ih =>
      intro levels enough core core_compiled budget room
      have item := ih levels enough core core_compiled
      have not_none : (atLeastOne && earlier.reverse.isEmpty) = false := by
        rw [Bool.and_eq_false_imp, List.isEmpty_reverse, List.isEmpty_eq_false_iff]
        exact kept
      rw [Matcher.repeatItems, item]
      simp only [not_none, List.reverse_reverse]
      rfl
  | items_next first moved _ ih ih' =>
      intro levels enough
      exact (ih levels enough).items_next first.before moved (ih' levels enough)
  | part_value unmarked _ ih =>
      intro levels enough expr part_compiled
      obtain ⟨core, core_compiled, rfl⟩ := map_eq_ok_iff.mp part_compiled
      rw [Part.run_wrap, unmarked]
      exact ih levels enough core core_compiled
  | part_text marked _ read ih =>
      intro levels enough expr part_compiled
      obtain ⟨core, core_compiled, rfl⟩ := map_eq_ok_iff.mp part_compiled
      have item := ih levels enough core core_compiled
      rw [Part.run_wrap, marked, if_pos rfl, runWith, item]
      simp only [read.textTo_eq]
  | part_miss marked _ ih =>
      intro levels enough expr part_compiled
      obtain ⟨core, core_compiled, rfl⟩ := map_eq_ok_iff.mp part_compiled
      have item := ih levels enough core core_compiled
      rw [Part.run_wrap, marked, if_pos rfl, runWith, item]
  | @parts_end record depth cursor =>
      intro levels enough converted all before origin matched
      cases all
      show runWith _ before origin = .ok (.matched (.record record)) ⟨cursor, depth⟩
      exact matched
  | parts_stop _ ih => exact fun levels enough => (ih levels enough).parts_stop rfl
  | parts_next _ _ ih ih' =>
      intro levels enough
      exact (ih levels enough).parts_next (ih' levels enough)
  | cases_end => exact fun levels enough before failed => failed
  | cases_match _ ih => exact fun levels enough => (ih levels enough).cases_stop rfl
  | cases_next _ _ ih ih' =>
      intro levels enough
      exact (ih levels enough).cases_next rfl (ih' levels enough)

/-- An attempt that breaks replies the fault. -/
theorem Breaks.replies (compiled : grammar.compile maxDepth = .ok program)
    (h : grammar.Breaks maxDepth attempt fault) :
    ∃ last, attempt.Replies program (.error fault last) := by
  cases h with
  | @undeclared name depth cursor missing =>
      refine ⟨⟨cursor, depth⟩, fun levels enough => ?_⟩
      have undefined := resolve_eq_none compiled missing
      cases levels <;> simp only [Goal.Replies, callsBelow, Expr.callWith, undefined]
  | @too_deep name rule depth cursor declared full =>
      refine ⟨⟨cursor, depth⟩, fun levels enough => ?_⟩
      have limit_eq := max_depth_compiled compiled
      obtain ⟨body, -, defined⟩ := exists_body compiled declared
      cases levels <;> simp only [Goal.Replies, callsBelow, Expr.callWith, defined,
        Context.enterRule, limit_eq, full, if_true] <;> rfl
  | @stuck atom atLeastOne earlier depth cursor value after item still =>
      -- progress is checked before the budget
      refine ⟨⟨after, depth⟩, fun levels enough core core_compiled budget room => ?_⟩
      have matched := item.replies compiled levels enough core core_compiled
      have stands : (Context.offset ⟨after, depth⟩) = Context.offset ⟨cursor, depth⟩ := still
      rw [Matcher.repeatItems, matched]
      simp only [Context.checkProgress, stands, if_true]
      rfl

/-- An attempt replies the fault of one that it demands. -/
theorem Demands.replies (compiled : grammar.compile maxDepth = .ok program)
    (h : grammar.Demands maxDepth attempt next)
    (broken : ∃ last, next.Replies program (.error fault last)) :
    ∃ last, attempt.Replies program (.error fault last) := by
  obtain ⟨last, replied⟩ := broken
  cases h with
  | sequence found below => exact ⟨_, replies_sequence compiled found below replied⟩
  | union found below => exact ⟨_, replies_union compiled found below replied⟩
  | reference =>
      refine ⟨last, fun levels enough core core_compiled => ?_⟩
      cases core_compiled
      exact replied levels enough
  | once => exact ⟨last, replied⟩
  | optional =>
      refine ⟨last, fun levels enough core core_compiled => ?_⟩
      have item := replied levels enough core core_compiled
      simp only [Suffix.wrap, runWith, item]
  | zero_or_more | one_or_more =>
      exact ⟨last, fun levels enough core core_compiled =>
        replied levels enough core core_compiled _ (Nat.le_refl _)⟩
  | item =>
      refine ⟨last, fun levels enough core core_compiled budget room => ?_⟩
      have item := replied levels enough core core_compiled
      rw [Matcher.repeatItems, item]
  | next_item item moved =>
      exact ⟨last, fun levels enough => (item.replies compiled levels enough).items_next
        item.before moved (replied levels enough)⟩
  | @suffixed part depth cursor =>
      refine ⟨last, fun levels enough expr part_compiled => ?_⟩
      obtain ⟨core, core_compiled, rfl⟩ := map_eq_ok_iff.mp part_compiled
      have item := replied levels enough core core_compiled
      rw [Part.run_wrap]
      cases part.stringify with
      | false => exact item
      | true => rw [if_pos rfl, runWith, item]
  | part => exact ⟨last, fun levels enough => (replied levels enough).parts_stop rfl⟩
  | next_part first =>
      exact ⟨last, fun levels enough =>
        (first.replies compiled levels enough).parts_next (replied levels enough)⟩
  | case => exact ⟨last, fun levels enough => (replied levels enough).cases_stop rfl⟩
  | next_case first =>
      exact ⟨last, fun levels enough =>
        (first.replies compiled levels enough).cases_next rfl (replied levels enough)⟩

/-- An attempt that a fault keeps from having an outcome replies the fault. -/
theorem Fatal.replies (compiled : grammar.compile maxDepth = .ok program)
    (h : grammar.Fatal maxDepth attempt fault) :
    ∃ last, attempt.Replies program (.error fault last) := by
  obtain ⟨broken, reached, breaks⟩ := h
  induction reached using Relation.ReflTransGen.head_induction_on with
  | refl => exact breaks.replies compiled
  | head demanded _ ih => exact demanded.replies compiled ih

end

end Grammar

section

variable {grammar : Grammar} {maxDepth : Nat} {program : Program} {start text : String}
  {reply : Reply}

/-- A call replies what its rule does. -/
theorem Grammar.Attempt.Replies.call_eq {name : String} {depth : Nat} {cursor : Cursor}
    (h : Attempt.Replies program ⟨.rule name, depth, cursor⟩ reply) :
    program.reply (.call name) ⟨cursor, depth⟩ = reply := by
  rw [Program.reply, Expr.run, Expr.run_below_eq]
  exact h _ (by dsimp only; omega)

/-- What a part compiles to replies what the part does. -/
theorem Grammar.Attempt.Replies.part_eq {part : Part} {expr : Expr} {depth : Nat} {cursor : Cursor}
    (h : Attempt.Replies program ⟨.part part, depth, cursor⟩ reply)
    (compiled : part.compile = .ok expr) : program.reply expr ⟨cursor, depth⟩ = reply := by
  rw [Program.reply, Expr.run, Expr.run_below_eq]
  exact h _ (by dsimp only; omega) expr compiled

/-- A run ends as the call of its rule at the start of the text replies. -/
theorem Grammar.Attempt.Replies.run_eq (compiled : grammar.compile maxDepth = .ok program)
    (declared : start ∈ grammar.ruleNames)
    (h : Attempt.Replies program ⟨.rule start, 0, .start text⟩ reply) :
    program.run start text = reply.result := by
  obtain ⟨rule, found⟩ := Grammar.declared_iff.mp declared
  obtain ⟨body, -, defined⟩ := exists_body compiled found
  rw [run_of_declared defined, Context.start, h.call_eq]

/-- A call that comes to an end has the outcome that its rule means, and is as deep as before. -/
theorem means_of_reply {name : String} {context after : Context} {outcome : Outcome}
    (compiled : grammar.compile maxDepth = .ok program)
    (replied : program.reply (.call name) context = .ok outcome after) :
    grammar.Means maxDepth ⟨.rule name, context.depth, context.cursor⟩ outcome after.cursor ∧
      after.depth = context.depth := by
  rcases grammar.settles maxDepth context.depth name context.cursor with
    ⟨meant, stop, means⟩ | ⟨fault, fatal⟩
  · cases replied.symm.trans (means.replies compiled).call_eq
    exact ⟨means, rfl⟩
  · obtain ⟨last, broken⟩ := fatal.replies compiled
    cases replied.symm.trans broken.call_eq

/-- A run that comes to an end has the outcome that its rule means. -/
theorem means_of_run {outcome : Outcome} {offset : Nat}
    (compiled : grammar.compile maxDepth = .ok program)
    (ran : program.run start text = .ok (outcome, offset)) :
    ∃ after, grammar.Means maxDepth ⟨.rule start, 0, .start text⟩ outcome after ∧
      after.offset = offset := by
  obtain ⟨body, context, -, replied, rfl⟩ := reply_of_run ran
  exact ⟨context.cursor, (means_of_reply compiled replied).1, rfl⟩

/-- A grammar with distinct rule names and ranges that are the right way round compiles, and running
a rule of the program has the outcome that the rule means, at the same offset. The run is fatal
exactly if the meaning demands an attempt that breaks, and then with the same fault. -/
theorem run_of_grammar (distinct : grammar.ruleNames.Nodup) (ordered : grammar.IsOrdered)
    (declared : start ∈ grammar.ruleNames) (maxDepth : Nat) (text : String) :
    ∃ program, grammar.compile maxDepth = .ok program ∧
      (∀ outcome offset, program.run start text = .ok (outcome, offset) ↔
        ∃ after, grammar.Means maxDepth ⟨.rule start, 0, .start text⟩ outcome after ∧
          after.offset = offset) ∧
      ∀ fault, program.run start text = .error fault ↔
        grammar.Fatal maxDepth ⟨.rule start, 0, .start text⟩ fault := by
  obtain ⟨program, compiled⟩ := Grammar.exists_compiled distinct ordered maxDepth
  have of_means : ∀ outcome after,
      grammar.Means maxDepth ⟨.rule start, 0, .start text⟩ outcome after →
        program.run start text = .ok (outcome, after.offset) :=
    fun outcome after means => (means.replies compiled).run_eq compiled declared
  have of_fatal : ∀ fault, grammar.Fatal maxDepth ⟨.rule start, 0, .start text⟩ fault →
      program.run start text = .error fault := by
    intro fault fatal
    obtain ⟨last, replied⟩ := fatal.replies compiled
    exact replied.run_eq compiled declared
  refine ⟨program, compiled, fun outcome offset => ⟨fun ran => ?_, ?_⟩, fun fault =>
    ⟨fun ran => ?_, of_fatal fault⟩⟩
  · rcases grammar.settles maxDepth 0 start (.start text) with
      ⟨outcome, after, means⟩ | ⟨fault, fatal⟩
    · cases ran.symm.trans (of_means outcome after means)
      exact ⟨after, means, rfl⟩
    · cases ran.symm.trans (of_fatal fault fatal)
  · rintro ⟨after, means, rfl⟩
    exact of_means outcome after means
  · rcases grammar.settles maxDepth 0 start (.start text) with
      ⟨outcome, after, means⟩ | ⟨fault, fatal⟩
    · cases ran.symm.trans (of_means outcome after means)
    · cases ran.symm.trans (of_fatal fault fatal)
      exact fatal

end

/-- The letters before the question mark are read again by the second case. -/
theorem run_of_item : ∃ program after, itemGrammar.compile 9 = .ok program ∧
    program.run "item" "ab?c!" = .ok (.matched itemValue, 5) ∧ after.offset = 5 ∧
    itemGrammar.Means 9 ⟨.rule "item", 0, .start "ab?c!"⟩ (.matched itemValue) after := by
  obtain ⟨program, compiled, runs, -⟩ :=
    @run_of_grammar itemGrammar "item" (by decide) (by decide) (by decide) 9 "ab?c!"
  have ran := run_item compiled
  obtain ⟨after, means, offset_eq⟩ := (runs _ _).mp ran
  exact ⟨program, after, compiled, ran, offset_eq, means⟩

end TracedGrammar

import TracedGrammar.Proofs.Trace.Derivation

/-!
# Derivations and direct matching

Derivations describe exactly the replies of direct matching: `Traced.run_eq` says that the reply of
a derivation is the one that `Expr.run` gives, and `exists_traced` that every run has a derivation.
Neither the levels of calls nor the budgets of repetitions, by which direct matching recurs, show in
the reply: any that are large enough give the same one.
-/

namespace TracedGrammar

namespace Expr

/-- The meaning of rule calls where a number of them can still be opened. -/
def callsBelow (rules : Registry Expr) (limit : Nat) : (levels : Nat) → String → Matcher
  | 0 => callWith rules limit fun _ context => .error (.noProgress context.offset) context
  | levels + 1 => callWith rules limit (runBelow rules limit levels)

theorem run_below_eq (rules : Registry Expr) (limit levels : Nat) :
    runBelow rules limit levels = runWith (callsBelow rules limit levels) := by
  cases levels <;> rfl

variable (call : String → Matcher) (context : Context)

theorem run_with_tagged (rule : String) (body : Expr) :
    runWith call (.tagged rule body) context =
      (runWith call body context).tag rule context.offset := by
  rw [runWith]
  cases runWith call body context with
  | ok outcome after => cases outcome <;> rfl
  | error fault after => rfl

theorem run_with_append (before part : Expr) (field : Option String) {value : Value}
    {middle : Context} (h : runWith call before context = .ok (.matched value) middle) :
    runWith call (.append before field part) context =
      (runWith call part middle).join value field := by
  simp only [runWith, h]
  cases runWith call part middle with
  | ok outcome after =>
      cases outcome with
      | matched item => cases field <;> rfl
      | failed captured => rfl
  | error fault after => rfl

theorem run_with_orElse (before alternative : Expr) {captured : Option (Record Value)}
    {middle : Context} (h : runWith call before context = .ok (.failed captured) middle) :
    runWith call (.orElse before alternative) context =
      (runWith call alternative (middle.restore context.cursor)).putBack context.cursor := by
  simp only [runWith, h]
  cases runWith call alternative (middle.restore context.cursor) with
  | ok outcome after => cases outcome <;> rfl
  | error fault after => rfl

end Expr

namespace Reply

variable {reply other : Reply} {start : Cursor}

theorem put_back_of_not_miss (h : reply.isMiss = false) : reply.putBack start = reply := by
  cases reply with
  | ok outcome after =>
      cases outcome with
      | matched value => rfl
      | failed captured => cases h
  | error fault after => rfl

theorem isMiss_put_back : (reply.putBack start).isMiss = reply.isMiss := by
  cases reply with
  | ok outcome after => cases outcome <;> rfl
  | error fault after => rfl

theorem put_back_put_back : (reply.putBack start).putBack start = reply.putBack start := by
  cases reply with
  | ok outcome after => cases outcome <;> rfl
  | error fault after => rfl

/-- A reply that was not changed by putting the cursor back unless it missed. -/
theorem eq_of_put_back_eq (h : reply.putBack start = other) (hit : other.isMiss = false) :
    reply = other := by
  rw [← h, isMiss_put_back] at hit
  rw [← h, put_back_of_not_miss hit]

/-- The reply before its cursor was put back after a miss. -/
theorem miss_of_put_back_eq {captured : Option (Record Value)} {middle : Context}
    (h : reply.putBack start = .ok (.failed captured) middle) :
    ∃ after, reply = .ok (.failed captured) after ∧ middle = after.restore start := by
  cases reply with
  | ok outcome after =>
      cases outcome with
      | matched value => cases h
      | failed _ =>
          cases h
          exact ⟨after, rfl, rfl⟩
  | error fault after => cases h

end Reply

open TracedGrammar.Expr (runWith callsBelow)

/-- A choice leaves nothing to put back. -/
theorem Expr.put_back_orElse (call : String → Matcher) (before alternative : Expr)
    (context : Context) :
    (runWith call (.orElse before alternative) context).putBack context.cursor =
      runWith call (.orElse before alternative) context := by
  cases h : runWith call before context with
  | ok outcome middle =>
      cases outcome with
      | matched value => simp only [runWith, h, Reply.putBack]
      | failed captured =>
          rw [run_with_orElse call context before alternative h, Reply.put_back_put_back]
  | error fault after => simp only [runWith, h, Reply.putBack]

/-- What direct matching says about a task, for a given meaning of rule calls. Items may have any
budget that the characters left do not exceed. -/
def Task.Yields (call : String → Matcher) (context : Context) (reply : Reply) : Task → Prop
  | .expr subject _ | .parts subject _ => runWith call subject context = reply
  | .options subject _ => (runWith call subject context).putBack context.cursor = reply
  | .items atLeastOne body _ earlier =>
      ∀ budget : List Char, context.cursor.rest.length ≤ budget.length →
        Matcher.repeatItems (runWith call body) atLeastOne budget earlier context = reply

variable {program : Program} {count count' : Nat} {context : Context} {events : List Event}
  {reply : Reply}

/-- Direct matching gives the reply of a derivation, at any number of levels that the limit on
nested calls does not exceed. -/
theorem Traced.yields {task : Task} (h : Traced program task count context events count' reply)
    {levels : Nat} (enough : program.maxDepth ≤ context.depth + levels) :
    task.Yields (callsBelow program.rules program.maxDepth levels) context reply := by
  induction h generalizing levels with
  | literal_hit eaten => simp only [Task.Yields, runWith, eaten]
  | literal_miss eaten => simp only [Task.Yields, runWith, eaten]
  | class_hit eaten => simp only [Task.Yields, runWith, eaten]
  | class_miss eaten => simp only [Task.Yields, runWith, eaten]
  | empty | never => rfl
  | stringify_hit _ ih =>
      have body := ih enough
      simp only [Task.Yields] at body
      simp only [Task.Yields, runWith, body]
  | @stringify_pass _ _ _ _ _ _ reply _ missed ih =>
      have body := ih enough
      simp only [Task.Yields] at body
      rw [Task.Yields, runWith, body]
      cases reply with
      | ok outcome after =>
          cases outcome with
          | matched value => cases missed
          | failed captured => rfl
      | error fault after => rfl
  | @optional_pass _ _ _ _ _ _ reply _ hit ih =>
      have body := ih enough
      simp only [Task.Yields] at body
      rw [Task.Yields, runWith, body]
      cases reply with
      | ok outcome after =>
          cases outcome with
          | matched value => rfl
          | failed captured => cases hit
      | error fault after => rfl
  | optional_miss _ ih =>
      have body := ih enough
      simp only [Task.Yields] at body
      simp only [Task.Yields, runWith, body]
  | repeated _ ih => exact ih enough _ (Nat.le_refl _)
  | unresolved undefined => cases levels <;> simp only [Task.Yields, runWith, callsBelow,
      Expr.callWith, undefined]
  | too_deep resolved full => cases levels <;> simp only [Task.Yields, runWith, callsBelow,
      Expr.callWith, resolved, Context.enterRule, full, if_true]
  | @call _ _ _ _ context _ _ reply resolved below _ ih =>
      -- a call below the limit leaves a level, on which its body runs
      obtain ⟨left, rfl⟩ : ∃ left, levels = left + 1 := ⟨levels - 1, by omega⟩
      have body := @ih left (by simp only; omega)
      simp only [Task.Yields, ← Expr.run_below_eq] at body
      simp only [Task.Yields, runWith, callsBelow, Expr.callWith, resolved, Context.enterRule,
        Nat.not_le.mpr below, if_false, body]
      cases reply <;> rfl
  | append _ _ ih => exact ih enough
  | orElse _ ih =>
      rw [Task.Yields, ← Expr.put_back_orElse]
      exact ih enough
  | tagged _ ih =>
      rw [Task.Yields, Expr.run_with_tagged]
      exact congrArg _ (ih enough)
  | untagged _ ih | located _ ih =>
      rw [Task.Yields, runWith]
      exact ih enough
  | parts_empty => rfl
  | parts_head _ _ ih => exact ih enough
  | @parts_stop _ _ _ _ _ _ _ _ _ reply _ missed ih =>
      have before := ih enough
      simp only [Task.Yields] at before
      rw [Task.Yields, runWith, before]
      cases reply with
      | ok outcome after =>
          cases outcome with
          | matched value => cases missed
          | failed captured => rfl
      | error fault after => rfl
  | parts_next first _ ih ih' =>
      have part := @ih' levels (by rw [← first.depth_eq] at enough; exact enough)
      rw [Task.Yields, Expr.run_with_append _ _ _ _ _ (ih enough)]
      exact congrArg _ part
  | options_never => rfl
  | options_head _ _ ih => exact congrArg _ (ih enough)
  | @options_stop _ _ _ _ _ _ _ reply _ hit ih =>
      have before := Reply.eq_of_put_back_eq (ih enough) hit
      rw [Task.Yields, runWith, before]
      cases reply with
      | ok outcome after =>
          cases outcome with
          | matched value => rfl
          | failed captured => cases hit
      | error fault after => rfl
  | @options_next _ _ _ _ context _ _ _ _ _ _ reply first _ ih ih' =>
      obtain ⟨after, before, rfl⟩ := Reply.miss_of_put_back_eq (ih enough)
      have alternative := @ih' levels (by rw [← first.depth_eq] at enough; exact enough)
      rw [Task.Yields, Expr.run_with_orElse _ _ _ _ before, Reply.put_back_put_back]
      exact congrArg _ alternative
  | items_fault _ ih =>
      intro budget _
      have item := ih enough
      simp only [Task.Yields] at item
      rw [Matcher.repeatItems, item]
  | items_end _ ih =>
      intro budget _
      have item := ih enough
      simp only [Task.Yields] at item
      rw [Matcher.repeatItems, item]
      simp only
      split <;> rfl
  | items_stuck _ still ih =>
      intro budget _
      have item := ih enough
      simp only [Task.Yields] at item
      rw [Matcher.repeatItems, item]
      simp only [Context.checkProgress, still, if_true]
  | @items_more _ _ _ _ _ context _ _ _ middle _ _ _ first moved _ ih ih' =>
      intro budget room
      have item := ih enough
      simp only [Task.Yields] at item
      -- the item moved the cursor, so its place in the budget was not the last one
      have fewer := first.before.length_lt moved
      simp only [Reply.context] at fewer
      obtain ⟨char, budget, rfl⟩ := List.exists_cons_of_length_pos
        (show 0 < budget.length by omega)
      have rest := @ih' levels (by rw [← first.depth_eq] at enough; exact enough) budget
        (by simp only [List.length_cons] at room; omega)
      rw [Matcher.repeatItems, item]
      simp only [Context.checkProgress, moved, if_false, rest]

/-- Direct matching gives the reply of a derivation. -/
theorem Traced.run_eq {expr : Expr} {node : NodeId}
    (h : Traced program (.expr expr node) count context events count' reply) :
    program.reply expr context = reply := by
  have enough : program.maxDepth ≤ context.depth + (program.maxDepth - context.depth) := by omega
  rw [Program.reply, Expr.run, Expr.run_below_eq]
  exact h.yields enough

/-- Every task about an expression has a derivation in each context of a depth. -/
structure Derivable (program : Program) (depth : Nat) (subject : Expr) : Prop where
  expr (node : NodeId) (count : Nat) (context : Context) : context.depth = depth →
    ∃ events count' reply, Traced program (.expr subject node) count context events count' reply
  parts (nodes : List NodeId) (count : Nat) (context : Context) : context.depth = depth →
    nodes.length = subject.parts.length →
    ∃ events count' reply, Traced program (.parts subject nodes) count context events count' reply
  options (node : NodeId) (count : Nat) (context : Context) : context.depth = depth →
    ∃ events count' reply, Traced program (.options subject node) count context events count' reply

/-- An expression that is its own only part is derivable as such if it is as an expression. -/
theorem exists_parts_head {depth : Nat} {subject : Expr}
    (whole : subject.parts = [(none, subject)])
    (derived : ∀ node count context, context.depth = depth →
      ∃ events count' reply, Traced program (.expr subject node) count context events count' reply)
    (nodes : List NodeId) (count : Nat) (context : Context) (at_depth : context.depth = depth)
    (fits : nodes.length = subject.parts.length) :
    ∃ events count' reply,
      Traced program (.parts subject nodes) count context events count' reply := by
  rw [whole] at fits
  obtain ⟨node, rfl⟩ := List.length_eq_one_iff.mp fits
  obtain ⟨events, count', reply, h⟩ := derived node count context at_depth
  exact ⟨events, count', reply, .parts_head whole h⟩

/-- An expression that is its own only alternative is derivable as such if it is as an
expression. -/
theorem exists_options_head {depth : Nat} {subject : Expr}
    (whole : subject.alternatives = [subject])
    (derived : ∀ node count context, context.depth = depth →
      ∃ events count' reply, Traced program (.expr subject node) count context events count' reply)
    (node : NodeId) (count : Nat) (context : Context) (at_depth : context.depth = depth) :
    ∃ events count' reply,
      Traced program (.options subject node) count context events count' reply := by
  obtain ⟨events, count', reply, h⟩ := derived node count context at_depth
  exact ⟨_, _, _, .options_head whole h⟩

/-- An expression that is neither a sequence nor a choice is derivable if it is on every node. -/
theorem Derivable.of_expr {depth : Nat} {subject : Expr}
    (part : subject.parts = [(none, subject)]) (option : subject.alternatives = [subject])
    (derived : ∀ node count context, context.depth = depth →
      ∃ events count' reply,
        Traced program (.expr subject node) count context events count' reply) :
    Derivable program depth subject :=
  ⟨derived, exists_parts_head part derived, exists_options_head option derived⟩

/-- Items have a derivation where their expression has: each one that is followed by another leaves
fewer characters. -/
theorem exists_traced_items {depth : Nat} {body : Expr} (derivable : Derivable program depth body)
    (atLeastOne : Bool) (node : NodeId) (earlier : List Value) (count : Nat) (context : Context)
    (at_depth : context.depth = depth) :
    ∃ events count' reply,
      Traced program (.items atLeastOne body node earlier) count context events count' reply := by
  obtain ⟨events, count', reply, item⟩ :=
    derivable.expr (.afterCount count) (count + 1) context at_depth
  cases reply with
  | error fault after => exact ⟨_, _, _, .items_fault item⟩
  | ok outcome after =>
      cases outcome with
      | failed captured => exact ⟨_, _, _, .items_end item⟩
      | matched value =>
          by_cases still : after.offset = context.offset
          · exact ⟨_, _, _, .items_stuck item still⟩
          · have fewer := item.before.length_lt still
            obtain ⟨more, count'', reply, rest⟩ :=
              exists_traced_items derivable atLeastOne node (value :: earlier) count' after
                (item.depth_eq.trans at_depth)
            exact ⟨_, _, _, .items_more item still rest⟩
termination_by context.cursor.rest.length

/-- Every expression is derivable at a depth if the calls are whose rule is defined. -/
theorem Derivable.of_calls {depth : Nat}
    (calls : ∀ rule body node count context, context.depth = depth →
      program.rules.resolve? rule = some body →
      ∃ events count' reply,
        Traced program (.expr (.call rule) node) count context events count' reply)
    (subject : Expr) : Derivable program depth subject := by
  induction subject with
  | literal text =>
      refine .of_expr rfl rfl fun node count context _ => ?_
      cases eaten : context.cursor.eatLiteral? text with
      | none => exact ⟨_, _, _, .literal_miss eaten⟩
      | some after => exact ⟨_, _, _, .literal_hit eaten⟩
  | charClass set =>
      refine .of_expr rfl rfl fun node count context _ => ?_
      cases eaten : context.cursor.eatChar? set.accepts with
      | none => exact ⟨_, _, _, .class_miss eaten⟩
      | some found => exact ⟨_, _, _, .class_hit eaten⟩
  | stringify body ih =>
      refine .of_expr rfl rfl fun node count context at_depth => ?_
      obtain ⟨events, count', reply, inner⟩ :=
        ih.expr (.afterCount count) (count + 1) context at_depth
      rcases reply with ⟨value | captured, after⟩ | ⟨fault, after⟩
      · exact ⟨_, _, _, .stringify_hit inner⟩
      · exact ⟨_, _, _, .stringify_pass inner rfl⟩
      · exact ⟨_, _, _, .stringify_pass inner rfl⟩
  | optional body ih =>
      refine .of_expr rfl rfl fun node count context at_depth => ?_
      obtain ⟨events, count', reply, inner⟩ := ih.expr node count context at_depth
      rcases reply with ⟨value | captured, after⟩ | ⟨fault, after⟩
      · exact ⟨_, _, _, .optional_pass inner rfl⟩
      · exact ⟨_, _, _, .optional_miss inner⟩
      · exact ⟨_, _, _, .optional_pass inner rfl⟩
  | repeated atLeastOne body ih =>
      refine .of_expr rfl rfl fun node count context at_depth => ?_
      obtain ⟨events, count', reply, items⟩ :=
        exists_traced_items ih atLeastOne node [] count context at_depth
      exact ⟨_, _, _, .repeated items⟩
  | call rule =>
      refine .of_expr rfl rfl fun node count context at_depth => ?_
      cases resolved : program.rules.resolve? rule with
      | none => exact ⟨_, _, _, .unresolved resolved⟩
      | some body => exact calls rule body node count context at_depth resolved
  | empty =>
      refine ⟨fun node count context _ => ⟨_, _, _, .empty⟩, ?_,
        exists_options_head rfl fun node count context _ => ⟨_, _, _, .empty⟩⟩
      intro nodes count context _ fits
      obtain rfl := List.eq_nil_of_length_eq_zero fits
      exact ⟨_, _, _, .parts_empty⟩
  | append before field part ih ih' =>
      have parts : ∀ (nodes : List NodeId) (count : Nat) (context : Context),
          context.depth = depth → nodes.length = (Expr.append before field part).parts.length →
          ∃ events count' reply, Traced program (.parts (.append before field part) nodes) count
            context events count' reply := by
        intro nodes count context at_depth fits
        simp only [Expr.parts, List.length_append, List.length_singleton] at fits
        obtain rfl | ⟨nodes, node, rfl⟩ := List.eq_nil_or_concat' nodes
        · cases fits
        obtain ⟨events, count', reply, first⟩ :=
          ih.parts nodes count context at_depth (by simpa using fits)
        rcases reply with ⟨value | captured, middle⟩ | ⟨fault, middle⟩
        · obtain ⟨more, count'', reply, last⟩ :=
            ih'.expr node count' middle (first.depth_eq.trans at_depth)
          exact ⟨_, _, _, .parts_next first last⟩
        · exact ⟨_, _, _, .parts_stop first rfl⟩
        · exact ⟨_, _, _, .parts_stop first rfl⟩
      have whole : ∀ (node : NodeId) (count : Nat) (context : Context), context.depth = depth →
          ∃ events count' reply, Traced program (.expr (.append before field part) node) count
            context events count' reply := by
        intro node count context at_depth
        obtain ⟨events, count', reply, h⟩ := parts (NodeId.nextHandles count
          (Expr.append before field part).parts.length)
          (count + (Expr.append before field part).parts.length) context at_depth
          (by simp [NodeId.nextHandles])
        exact ⟨_, _, _, .append rfl h⟩
      exact ⟨whole, parts, exists_options_head rfl whole⟩
  | never =>
      refine ⟨fun node count context _ => ⟨_, _, _, .never⟩,
        exists_parts_head rfl fun node count context _ => ⟨_, _, _, .never⟩,
        fun node count context _ => ⟨_, _, _, .options_never⟩⟩
  | orElse before alternative ih ih' =>
      have options : ∀ (node : NodeId) (count : Nat) (context : Context), context.depth = depth →
          ∃ events count' reply, Traced program (.options (.orElse before alternative) node) count
            context events count' reply := by
        intro node count context at_depth
        obtain ⟨events, count', reply, first⟩ := ih.options node count context at_depth
        rcases reply with ⟨value | captured, middle⟩ | ⟨fault, middle⟩
        · exact ⟨_, _, _, .options_stop first rfl⟩
        · obtain ⟨more, count'', reply, last⟩ :=
            ih'.expr node count' middle (first.depth_eq.trans at_depth)
          exact ⟨_, _, _, .options_next first last⟩
        · exact ⟨_, _, _, .options_stop first rfl⟩
      have whole : ∀ (node : NodeId) (count : Nat) (context : Context), context.depth = depth →
          ∃ events count' reply, Traced program (.expr (.orElse before alternative) node) count
            context events count' reply := by
        intro node count context at_depth
        obtain ⟨events, count', reply, h⟩ := options node count context at_depth
        exact ⟨_, _, _, .orElse h⟩
      exact ⟨whole, exists_parts_head rfl whole, options⟩
  | tagged rule body ih =>
      refine .of_expr rfl rfl fun node count context at_depth => ?_
      obtain ⟨events, count', reply, inner⟩ := ih.expr node count context at_depth
      exact ⟨_, _, _, .tagged inner⟩
  | untagged rule body ih =>
      refine .of_expr rfl rfl fun node count context at_depth => ?_
      obtain ⟨events, count', reply, inner⟩ := ih.expr node count context at_depth
      exact ⟨_, _, _, .untagged inner⟩
  | located span body ih =>
      refine .of_expr rfl rfl fun node count context at_depth => ?_
      obtain ⟨events, count', reply, inner⟩ := ih.expr node count context at_depth
      exact ⟨_, _, _, .located inner⟩

/-- Every expression is derivable: the syntax gives out below each call, and the calls at the
limit. -/
theorem derivable (program : Program) {levels depth : Nat}
    (enough : program.maxDepth ≤ depth + levels) (subject : Expr) :
    Derivable program depth subject := by
  induction levels generalizing depth subject with
  | zero =>
      refine .of_calls (fun rule body node count context at_depth resolved => ?_) subject
      exact ⟨_, _, _, .too_deep resolved (by omega)⟩
  | succ levels ih =>
      refine .of_calls (fun rule body node count context at_depth resolved => ?_) subject
      by_cases full : program.maxDepth ≤ context.depth
      · exact ⟨_, _, _, .too_deep resolved full⟩
      · obtain ⟨events, count', reply, inner⟩ :=
          (@ih (depth + 1) (by omega) body).expr node count
            { context with depth := context.depth + 1 } (congrArg (· + 1) at_depth)
        exact ⟨_, _, _, .call resolved (by omega) inner⟩

/-- Every run has a derivation, on any node and with any number of handles given out before. -/
theorem exists_traced (program : Program) (subject : Expr) (node : NodeId) (count : Nat)
    (context : Context) :
    ∃ events count', Traced program (.expr subject node) count context events count'
      (program.reply subject context) := by
  have enough : program.maxDepth ≤ context.depth + program.maxDepth := Nat.le_add_left ..
  obtain ⟨events, count', reply, h⟩ :=
    (derivable program enough subject).expr node count context rfl
  exact ⟨events, count', h.run_eq ▸ h⟩

/-- What a run of a rule amounts to, given the reply of its call. -/
def Reply.result : Reply → Except Fault (Outcome × Nat)
  | .ok outcome context => .ok (outcome, context.offset)
  | .error fault _ => .error fault

section

variable {start text : String} {body : Expr}

/-- A run of a declared rule is a call of it at the start of the text. -/
theorem run_of_declared (declared : program.rules.resolve? start = some body) :
    program.run start text = (program.reply (.call start) (.start text)).result := by
  rw [Program.run, declared]
  cases program.reply (.call start) (.start text) <;> rfl

/-- A run that comes to an end is a call of a declared rule. -/
theorem reply_of_run {outcome : Outcome} {offset : Nat}
    (ran : program.run start text = .ok (outcome, offset)) :
    ∃ body context, program.rules.resolve? start = some body ∧
      program.reply (.call start) (.start text) = .ok outcome context ∧
        context.offset = offset := by
  cases declared : program.rules.resolve? start with
  | none =>
      rw [Program.run, declared] at ran
      cases ran
  | some body =>
      rw [run_of_declared declared] at ran
      cases replied : program.reply (.call start) (.start text) with
      | ok outcome context =>
          rw [replied] at ran
          cases ran
          exact ⟨body, context, rfl, rfl, rfl⟩
      | error fault context =>
          rw [replied] at ran
          cases ran

theorem run_eq_error_iff {fault : Fault} (declared : program.rules.resolve? start = some body) :
    program.run start text = .error fault ↔
      ∃ context, program.reply (.call start) (.start text) = .error fault context := by
  rw [run_of_declared declared]
  cases program.reply (.call start) (.start text) with
  | ok outcome context => simp [Reply.result]
  | error fault' context => simp [Reply.result]

end

end TracedGrammar

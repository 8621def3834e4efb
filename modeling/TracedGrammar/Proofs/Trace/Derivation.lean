import TracedGrammar.Proofs.Text.Cursor
import TracedGrammar.Trace.Machine

/-!
# Derivations of traced matches

`Traced program task count context events count' reply` describes a match as a whole: in the given
context, with `count` node handles given out, the task causes the events and ends in the reply, and
`count'` handles have been given out by then. It takes an expression apart along its syntax, as
direct matching does, and says which events each construct causes, as the stepping machine does, so
that both can be compared with it. Neither the number of items of a repetition nor the depth of
calls needs a bound here other than the program's own limit.

A task is an expression on a node, or one of the pieces that the machine cuts an expression into:
the parts of a sequence on nodes of their own, the alternatives of a choice on one node, and the
further items of a repetition.
-/

namespace TracedGrammar

/-- The value of a sequence after a further part. -/
def Value.extend (value : Value) (field : Option String) (item : Value) : Value :=
  match field with
  | some name => .record (value.toRecord.insert name item)
  | none => value

namespace Reply

/-- The context that a match ends in. -/
def context : Reply → Context
  | .ok _ after => after
  | .error _ after => after

/-- Whether the expression matched. -/
def isMatch : Reply → Bool
  | .ok (.matched _) _ => true
  | _ => false

/-- Whether the expression did not match. A fault is not a miss. -/
def isMiss : Reply → Bool
  | .ok (.failed _) _ => true
  | _ => false

/-- The fault that matching ended in. -/
def fault? : Reply → Option Fault
  | .ok _ _ => none
  | .error fault _ => some fault

/-- The reply of a call to a rule whose body gives this one. -/
def exitRule : Reply → Reply
  | .ok outcome after => .ok outcome after.exitRule
  | .error fault after => .error fault after.exitRule

/-- The reply of a tagged rule whose body, started at an offset, gives this one. -/
def tag (rule : String) (start : Nat) : Reply → Reply
  | .ok (.matched value) after =>
      .ok (.matched (.record (value.asRuleRecord rule ⟨start, after.offset⟩))) after
  | .ok (.failed captured) after => .ok (.failed (captured.map ({ · with tag := some rule }))) after
  | .error fault after => .error fault after

/-- The reply of a sequence whose last part gives this one, after the parts before gave a value. -/
def join (value : Value) (field : Option String) : Reply → Reply
  | .ok (.matched item) after => .ok (.matched (value.extend field item)) after
  | .ok (.failed _) after => .ok (.failed (some value.toRecord)) after
  | .error fault after => .error fault after

/-- The reply with the cursor put back after a miss. -/
def putBack (start : Cursor) : Reply → Reply
  | .ok (.failed captured) after => .ok (.failed captured) (after.restore start)
  | reply => reply

end Reply

namespace Event

/-- The events that show a text and a kind on a node. -/
def shows (node : NodeId) (text : String) (kind : NodeKind) : List Event :=
  [.setText node text, .setKind node kind]

/-- The events of a leaf that matched a text up to a cursor. -/
def leaf (node : NodeId) (text : String) (after : Cursor) : List Event :=
  Event.shows node (Json.quote text) .text ++ [.consume after.offset]

/-- The events before the parts of a sequence, whose nodes are the next handles: those of named
parts become labelled children, from the index `named` on. -/
def openParts (node : NodeId) : (named count : Nat) → List (Option String × Expr) → List Event
  | _, _, [] => []
  | named, count, (some label, _) :: parts =>
      .attach node named (.afterCount count) :: .setLabel (.afterCount count) label ::
        openParts node (named + 1) (count + 1) parts
  | named, count, (none, _) :: parts => openParts node named (count + 1) parts

/-- The event after the body of a rule; a fault leaves the rule open. -/
def closeRule (rule : String) : Reply → List Event
  | .ok _ _ => [.ruleExit rule]
  | .error _ _ => []

/-- The event after an alternative of a choice that began at an offset. -/
def putBack (start : Nat) (reply : Reply) : List Event :=
  if reply.isMiss then [.rollback start] else []

end Event

/-- The next handles, as many as given. -/
def NodeId.nextHandles (count number : Nat) : List NodeId :=
  (List.range' count number).map .afterCount

/-- What a derivation is about. -/
inductive Task where
  /-- An expression, shown on a node. -/
  | expr (expr : Expr) (node : NodeId)
  /-- The parts of a sequence, each on a node of its own. -/
  | parts (expr : Expr) (nodes : List NodeId)
  /-- The alternatives of a choice, all on one node. -/
  | options (expr : Expr) (node : NodeId)
  /-- The items of a repetition from a further one on. Those before are given in reverse. -/
  | items (atLeastOne : Bool) (body : Expr) (node : NodeId) (earlier : List Value)

/-- A task causes events and ends in a reply; see the head of the module. -/
inductive Traced (program : Program) : Task → Nat → Context → List Event → Nat → Reply → Prop where
  | literal_hit {text node count context after} :
      context.cursor.eatLiteral? text = some after →
      Traced program (.expr (.literal text) node) count context (Event.leaf node text after) count
        (.ok (.matched (.text text)) (context.restore after))
  | literal_miss {text node count context} :
      context.cursor.eatLiteral? text = none →
      Traced program (.expr (.literal text) node) count context [] count
        (.ok (.failed none) context)
  | class_hit {set node count context char after} :
      context.cursor.eatChar? set.accepts = some (char, after) →
      Traced program (.expr (.charClass set) node) count context
        (Event.leaf node (String.singleton char) after) count
        (.ok (.matched (.text (String.singleton char))) (context.restore after))
  | class_miss {set node count context} :
      context.cursor.eatChar? set.accepts = none →
      Traced program (.expr (.charClass set) node) count context [] count
        (.ok (.failed none) context)
  -- the body of a stringified expression is shown on a node that is attached nowhere
  | stringify_hit {body node count context events count' value after} :
      Traced program (.expr body (.afterCount count)) (count + 1) context events count'
        (.ok (.matched value) after) →
      Traced program (.expr (.stringify body) node) count context
        (events ++ Event.shows node (Json.quote (context.cursor.textTo after.cursor)) .text) count'
        (.ok (.matched (.text (context.cursor.textTo after.cursor))) after)
  | stringify_pass {body node count context events count' reply} :
      Traced program (.expr body (.afterCount count)) (count + 1) context events count' reply →
      reply.isMatch = false →
      Traced program (.expr (.stringify body) node) count context events count' reply
  -- a body that missed is taken back before the absence is shown
  | optional_pass {body node count context events count' reply} :
      Traced program (.expr body node) count context events count' reply →
      reply.isMiss = false →
      Traced program (.expr (.optional body) node) count context events count' reply
  | optional_miss {body node count context events count' captured after} :
      Traced program (.expr body node) count context events count' (.ok (.failed captured) after) →
      Traced program (.expr (.optional body) node) count context
        (events ++ [.rollback context.offset, .reset node] ++
          Event.shows node "null" .absent) count'
        (.ok (.matched .absent) (after.restore context.cursor))
  | repeated {atLeastOne body node count context events count' reply} :
      Traced program (.items atLeastOne body node []) count context events count' reply →
      Traced program (.expr (.repeated atLeastOne body) node) count context
        (Event.shows node "[]" .list ++ events) count' reply
  | unresolved {rule node count context} :
      program.rules.resolve? rule = none →
      Traced program (.expr (.call rule) node) count context [] count
        (.error (.unresolved rule) context)
  | too_deep {rule body node count context} :
      program.rules.resolve? rule = some body → program.maxDepth ≤ context.depth →
      Traced program (.expr (.call rule) node) count context [] count
        (.error (.tooDeep rule program.maxDepth context.offset) context)
  | call {rule body node count context events count' reply} :
      program.rules.resolve? rule = some body → context.depth < program.maxDepth →
      Traced program (.expr body node) count { context with depth := context.depth + 1 } events
        count' reply →
      Traced program (.expr (.call rule) node) count context events count' reply.exitRule
  | empty {node count context} :
      Traced program (.expr .empty node) count context [] count
        (.ok (.matched (.record .empty)) context)
  | append {before field part parts node count context events count' reply} :
      (Expr.append before field part).parts = parts →
      Traced program (.parts (.append before field part) (NodeId.nextHandles count parts.length))
        (count + parts.length) context events count' reply →
      Traced program (.expr (.append before field part) node) count context
        (Event.openParts node 0 count parts ++ events) count' reply
  | never {node count context} :
      Traced program (.expr .never node) count context [] count (.ok (.failed none) context)
  | orElse {before alternative node count context events count' reply} :
      Traced program (.options (.orElse before alternative) node) count context events count'
        reply →
      Traced program (.expr (.orElse before alternative) node) count context events count' reply
  | tagged {rule body node count context events count' reply} :
      Traced program (.expr body node) count context events count' reply →
      Traced program (.expr (.tagged rule body) node) count context
        (.ruleEnter rule ::
          (Event.shows node rule .record ++ events ++ Event.closeRule rule reply)) count'
        (reply.tag rule context.offset)
  | untagged {rule body node count context events count' reply} :
      Traced program (.expr body node) count context events count' reply →
      Traced program (.expr (.untagged rule body) node) count context
        (.ruleEnter rule :: (events ++ Event.closeRule rule reply)) count' reply
  | located {span body node count context events count' reply} :
      Traced program (.expr body node) count context events count' reply →
      Traced program (.expr (.located span body) node) count context (.sourceSpan span :: events)
        count' reply
  -- the parts of a sequence, the first that does not match being the last
  | parts_empty {count context} :
      Traced program (.parts .empty []) count context [] count
        (.ok (.matched (.record .empty)) context)
  | parts_head {expr node count context events count' reply} :
      expr.parts = [(none, expr)] →
      Traced program (.expr expr node) count context events count' reply →
      Traced program (.parts expr [node]) count context events count' reply
  | parts_stop {before field part nodes node count context events count' reply} :
      Traced program (.parts before nodes) count context events count' reply →
      reply.isMatch = false →
      Traced program (.parts (.append before field part) (nodes ++ [node])) count context events
        count' reply
  | parts_next {before field part nodes node count context events count' value middle more count''
        reply} :
      Traced program (.parts before nodes) count context events count'
        (.ok (.matched value) middle) →
      Traced program (.expr part node) count' middle more count'' reply →
      Traced program (.parts (.append before field part) (nodes ++ [node])) count context
        (events ++ more) count'' (reply.join value field)
  -- the alternatives of a choice, each on the node after a reset
  | options_never {node count context} :
      Traced program (.options .never node) count context [] count (.ok (.failed none) context)
  | options_head {expr node count context events count' reply} :
      expr.alternatives = [expr] →
      Traced program (.expr expr node) count context events count' reply →
      Traced program (.options expr node) count context
        (.reset node :: (events ++ Event.putBack context.offset reply)) count'
        (reply.putBack context.cursor)
  | options_stop {before alternative node count context events count' reply} :
      Traced program (.options before node) count context events count' reply →
      reply.isMiss = false →
      Traced program (.options (.orElse before alternative) node) count context events count' reply
  | options_next {before alternative node count context events count' captured middle more count''
        reply} :
      Traced program (.options before node) count context events count'
        (.ok (.failed captured) middle) →
      Traced program (.expr alternative node) count' middle more count'' reply →
      Traced program (.options (.orElse before alternative) node) count context
        (events ++ .reset node :: (more ++ Event.putBack context.offset reply)) count''
        (reply.putBack context.cursor)
  -- the items of a repetition, each on a node that is attached before the item is tried
  | items_fault {atLeastOne body node earlier count context events count' fault after} :
      Traced program (.expr body (.afterCount count)) (count + 1) context events count'
        (.error fault after) →
      Traced program (.items atLeastOne body node earlier) count context
        (.attach node earlier.length (.afterCount count) :: events) count' (.error fault after)
  | items_end {atLeastOne body node earlier count context events count' captured after} :
      Traced program (.expr body (.afterCount count)) (count + 1) context events count'
        (.ok (.failed captured) after) →
      Traced program (.items atLeastOne body node earlier) count context
        (.attach node earlier.length (.afterCount count) ::
          (events ++ [.rollback context.offset, .detach node])) count'
        (.ok (if atLeastOne && earlier.isEmpty then .failed none
          else .matched (.list earlier.reverse)) (after.restore context.cursor))
  | items_stuck {atLeastOne body node earlier count context events count' value after} :
      Traced program (.expr body (.afterCount count)) (count + 1) context events count'
        (.ok (.matched value) after) →
      after.offset = context.offset →
      Traced program (.items atLeastOne body node earlier) count context
        (.attach node earlier.length (.afterCount count) :: events) count'
        (.error (.noProgress after.offset) after)
  | items_more {atLeastOne body node earlier count context events count' value middle more count''
        reply} :
      Traced program (.expr body (.afterCount count)) (count + 1) context events count'
        (.ok (.matched value) middle) →
      middle.offset ≠ context.offset →
      Traced program (.items atLeastOne body node (value :: earlier)) count' middle more count''
        reply →
      Traced program (.items atLeastOne body node earlier) count context
        (.attach node earlier.length (.afterCount count) :: (events ++ more)) count'' reply

namespace Reply

variable (reply : Reply)

@[simp] theorem context_exitRule : reply.exitRule.context = reply.context.exitRule := by
  cases reply <;> rfl

@[simp] theorem context_tag (rule : String) (start : Nat) :
    (reply.tag rule start).context = reply.context := by
  cases reply with
  | ok outcome after => cases outcome <;> rfl
  | error fault after => rfl

@[simp] theorem context_join (value : Value) (field : Option String) :
    (reply.join value field).context = reply.context := by
  cases reply with
  | ok outcome after => cases outcome <;> rfl
  | error fault after => rfl

theorem fault_eq_some_iff {reply : Reply} {fault : Fault} :
    reply.fault? = some fault ↔ ∃ after, reply = .error fault after := by
  cases reply <;> simp [fault?]

@[simp] theorem fault_exitRule : reply.exitRule.fault? = reply.fault? := by
  cases reply <;> rfl

@[simp] theorem fault_tag (rule : String) (start : Nat) :
    (reply.tag rule start).fault? = reply.fault? := by
  rcases reply with ⟨_ | _, after⟩ | ⟨fault, after⟩ <;> rfl

@[simp] theorem fault_join (value : Value) (field : Option String) :
    (reply.join value field).fault? = reply.fault? := by
  rcases reply with ⟨_ | _, after⟩ | ⟨fault, after⟩ <;> rfl

@[simp] theorem fault_putBack (start : Cursor) : (reply.putBack start).fault? = reply.fault? := by
  rcases reply with ⟨_ | _, after⟩ | ⟨fault, after⟩ <;> rfl

/-- Putting the cursor back leaves it where it is or where it was. -/
theorem context_put_back (start : Cursor) :
    (reply.putBack start).context = reply.context ∨
      (reply.putBack start).context = reply.context.restore start := by
  cases reply with
  | ok outcome after =>
      cases outcome with
      | matched value => exact .inl rfl
      | failed captured => exact .inr rfl
  | error fault after => exact .inl rfl

end Reply

namespace Traced

variable {program : Program} {task : Task} {count count' : Nat} {context : Context}
  {events : List Event} {reply : Reply}

/-- A match ends with as many open calls as it began with, whatever its reply. -/
theorem depth_eq (h : Traced program task count context events count' reply) :
    reply.context.depth = context.depth := by
  induction h with
  | call resolved below inner ih =>
      rw [Reply.context_exitRule, Context.exitRule, ih]
      rfl
  | tagged inner ih => rw [Reply.context_tag, ih]
  | parts_next first rest ih ih' =>
      rw [Reply.context_join, ih']
      exact ih
  | @options_head _ _ _ _ _ _ reply _ _ ih =>
      rcases reply.context_put_back _ with h | h <;> rw [h]
      · exact ih
      · exact ih
  | @options_next _ _ _ _ _ _ _ _ _ _ _ reply _ _ ih ih' =>
      rcases reply.context_put_back _ with h | h <;> rw [h]
      · exact ih'.trans ih
      · exact ih'.trans ih
  | items_more first moved rest ih ih' => exact ih'.trans ih
  | stringify_hit _ ih | stringify_pass _ _ ih | optional_pass _ _ ih | optional_miss _ ih
  | repeated _ ih | append _ _ ih | orElse _ ih | untagged _ ih | located _ ih | parts_head _ _ ih
  | parts_stop _ _ ih | options_stop _ _ ih | items_fault _ ih | items_end _ ih
  | items_stuck _ _ ih => exact ih
  | literal_hit | literal_miss | class_hit | class_miss | unresolved | too_deep | empty | never
  | parts_empty | options_never => rfl

/-- A match ends at the cursor it began at or behind it, whatever its reply. -/
theorem before (h : Traced program task count context events count' reply) :
    context.cursor.Before reply.context.cursor := by
  induction h with
  | literal_hit eaten => exact ⟨_, Cursor.eat_literal_eq_some_iff.mp eaten⟩
  | class_hit eaten => exact ⟨_, (Cursor.eat_char_eq_some_iff.mp eaten).2⟩
  | call resolved below inner ih =>
      rw [Reply.context_exitRule]
      exact ih
  | tagged inner ih =>
      rw [Reply.context_tag]
      exact ih
  | parts_next first rest ih ih' =>
      rw [Reply.context_join]
      exact ih.trans ih'
  | @options_head _ _ _ context _ _ reply _ _ ih =>
      rcases reply.context_put_back context.cursor with h | h <;> rw [h]
      · exact ih
      · exact .refl _
  | @options_next _ _ _ _ context _ _ _ _ _ _ reply _ _ ih ih' =>
      rcases reply.context_put_back context.cursor with h | h <;> rw [h]
      · exact ih.trans ih'
      · exact .refl _
  | items_more first moved rest ih ih' => exact ih.trans ih'
  | stringify_hit _ ih | stringify_pass _ _ ih | optional_pass _ _ ih | repeated _ ih
  | append _ _ ih | orElse _ ih | untagged _ ih | located _ ih | parts_head _ _ ih
  | parts_stop _ _ ih | options_stop _ _ ih | items_fault _ ih | items_stuck _ _ ih => exact ih
  | literal_miss | class_miss | unresolved | too_deep | empty | never | parts_empty
  | options_never | optional_miss | items_end => exact .refl _

/-- Handles are only ever given out. -/
theorem count_le (h : Traced program task count context events count' reply) :
    count ≤ count' := by
  induction h with
  | parts_next _ _ ih ih' | options_next _ _ ih ih' => exact ih.trans ih'
  | items_more _ _ _ ih ih' => exact (Nat.le_succ _).trans (ih.trans ih')
  | stringify_hit _ ih | stringify_pass _ _ ih | items_fault _ ih | items_end _ ih
  | items_stuck _ _ ih => exact (Nat.le_succ _).trans ih
  | append _ _ ih => exact (Nat.le_add_right ..).trans ih
  | call _ _ _ ih | optional_pass _ _ ih | optional_miss _ ih | repeated _ ih | orElse _ ih
  | tagged _ ih | untagged _ ih | located _ ih | parts_head _ _ ih | parts_stop _ _ ih
  | options_head _ _ ih | options_stop _ _ ih => exact ih
  | literal_hit | literal_miss | class_hit | class_miss | unresolved | too_deep | empty | never
  | parts_empty | options_never => exact Nat.le_refl _

/-- A derivation has a node for each part. -/
theorem length_nodes {subject : Expr} {nodes : List NodeId}
    (h : Traced program (.parts subject nodes) count context events count' reply) :
    nodes.length = subject.parts.length := by
  generalize same : Task.parts subject nodes = task at h
  induction h generalizing subject nodes with
  | parts_empty => cases same; rfl
  | parts_head whole _ => cases same; rw [whole]; rfl
  | parts_stop _ _ ih | parts_next _ _ ih => cases same; simp [Expr.parts, ih rfl]
  | _ => cases same

end Traced

end TracedGrammar

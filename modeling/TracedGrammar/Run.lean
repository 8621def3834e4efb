import TracedGrammar.Context
import TracedGrammar.Expr
import TracedGrammar.Registry
import TracedGrammar.Value

/-!
# Direct matching

`Expr.run` applies an expression at the cursor of a context and yields a value, a mismatch, or a
fault. A mismatch leaves the cursor where matching stopped; the expressions that try something else
afterwards put it back themselves.

A run is defined by recursion on the expression for a given meaning of rule calls (`Expr.runWith`),
and the meaning of calls by recursion on the number of calls that may still be opened
(`Expr.runBelow`). `Program.parse` demands that the whole input is consumed.
-/

namespace TracedGrammar

/-- The result of matching that came to an end: a value, or a mismatch with the fields a sequence
had captured up to then. -/
inductive Outcome where
  | matched (value : Value)
  | failed (captured : Option (Record Value))

namespace Outcome

/-- Whether there is a value. -/
def isMatch : Outcome → Bool
  | matched _ => true
  | failed _ => false

end Outcome

/-- The result of matching, with the context it ends in. -/
abbrev Reply := EStateM.Result Fault Context Outcome

/-- A way of matching at the cursor of a context. -/
abbrev Matcher := Context → Reply

namespace Matcher

/-- Matches an item as often as possible, from items matched already, in reverse. The budget holds
one character for each further item there can be: every item moves the cursor, so the budget cannot
run out first. -/
def repeatItems (item : Matcher) (atLeastOne : Bool) :
    (budget : List Char) → (items : List Value) → Matcher
  | budget, items, context =>
      match item context with
      | .error fault after => .error fault after
      | .ok (.failed _) after =>
          if atLeastOne && items.isEmpty then .ok (.failed none) (after.restore context.cursor)
          else .ok (.matched (.list items.reverse)) (after.restore context.cursor)
      | .ok (.matched value) after =>
          match after.checkProgress context.offset, budget with
          | .error fault, _ => .error fault after
          | .ok (), [] => .error (.noProgress after.offset) after
          | .ok (), _ :: budget => repeatItems item atLeastOne budget (value :: items) after

end Matcher

/-- The record of a rule that matched from one offset to another: fields of a sequence, or the one
field `value` for any other value. -/
def Value.asRuleRecord (rule : String) (span : Span) : Value → Record Value
  | .record content => { content with tag := some rule, span := some span }
  | other => { tag := some rule, span := some span, fields := [("value", other)] }

namespace Expr

/-- Matching for a given meaning of rule calls. -/
def runWith (call : String → Matcher) : Expr → Matcher
  | .literal text, context =>
      match context.cursor.eatLiteral? text with
      | some cursor => .ok (.matched (.text text)) (context.restore cursor)
      | none => .ok (.failed none) context
  | .charClass set, context =>
      match context.cursor.eatChar? set.accepts with
      | some (char, cursor) =>
          .ok (.matched (.text (String.singleton char))) (context.restore cursor)
      | none => .ok (.failed none) context
  | .stringify body, context =>
      match runWith call body context with
      | .ok (.matched _) after =>
          .ok (.matched (.text (context.cursor.textTo after.cursor))) after
      | reply => reply
  | .optional body, context =>
      match runWith call body context with
      | .ok (.failed _) after => .ok (.matched .absent) (after.restore context.cursor)
      | reply => reply
  | .repeated atLeastOne body, context =>
      Matcher.repeatItems (runWith call body) atLeastOne context.cursor.rest [] context
  | .call rule, context => call rule context
  | .empty, context => .ok (.matched (.record .empty)) context
  | .append before field part, context =>
      match runWith call before context with
      | .ok (.matched value) middle =>
          match runWith call part middle with
          | .ok (.matched item) after =>
              match field with
              | some name => .ok (.matched (.record (value.toRecord.insert name item))) after
              | none => .ok (.matched value) after
          | .ok (.failed _) after => .ok (.failed (some value.toRecord)) after
          | .error fault after => .error fault after
      | reply => reply
  | .never, context => .ok (.failed none) context
  | .orElse before alternative, context =>
      match runWith call before context with
      | .ok (.failed _) middle =>
          match runWith call alternative (middle.restore context.cursor) with
          | .ok (.failed captured) after =>
              .ok (.failed captured) (after.restore context.cursor)
          | reply => reply
      | reply => reply
  | .tagged rule body, context =>
      match runWith call body context with
      | .ok (.matched value) after =>
          let span := ⟨context.offset, after.offset⟩
          .ok (.matched (.record (value.asRuleRecord rule span))) after
      | .ok (.failed captured) after =>
          .ok (.failed (captured.map ({ · with tag := some rule }))) after
      | .error fault after => .error fault after
  | .untagged _ body, context => runWith call body context
  | .located _ body, context => runWith call body context

/-- The meaning of a call: the rule's expression is matched one level deeper. -/
def callWith (rules : Registry Expr) (limit : Nat) (body : Expr → Matcher) (rule : String) :
    Matcher := fun context =>
  match rules.resolve? rule with
  | none => .error (.unresolved rule) context
  | some expr =>
      match context.enterRule limit rule with
      | .error fault => .error fault context
      | .ok inner =>
          match body expr inner with
          | .ok outcome after => .ok outcome after.exitRule
          | .error fault after => .error fault after.exitRule

/-- Matching where at most the given number of calls can still be opened. Below that many levels
every context is at the limit, so there the body of a call is never reached. -/
def runBelow (rules : Registry Expr) (limit : Nat) : Nat → Expr → Matcher
  | 0 =>
      runWith <| callWith rules limit fun _ context =>
        .error (.noProgress context.offset) context
  | levels + 1 => runWith <| callWith rules limit (runBelow rules limit levels)

/-- Matching under a limit on nested calls. -/
def run (rules : Registry Expr) (limit : Nat) (expr : Expr) : Matcher := fun context =>
  runBelow rules limit (limit - context.depth) expr context

end Expr

end TracedGrammar

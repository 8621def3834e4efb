import TracedGrammar.Diagnostic
import TracedGrammar.Text.Cursor

/-!
# Matching contexts

What changes while an expression is matched: the cursor and the number of rule calls that are open.
The guards against endless runs are here, a limit on nested calls and the demand that each item of
a repetition moves the cursor, together with the faults that end a run for good.
-/

namespace TracedGrammar

/-- What ends a run for good. A mismatch is not a fault. -/
inductive Fault where
  /-- The rule to start from has no definition. -/
  | unknownStart (rule : String)
  /-- A called rule has no definition. -/
  | unresolved (rule : String)
  /-- A call at an offset would be nested deeper than the limit. -/
  | tooDeep (rule : String) (limit offset : Nat)
  /-- A repeated expression matched at an offset without consuming anything. -/
  | noProgress (offset : Nat)
deriving DecidableEq

namespace Fault

/-- The report of a fault. -/
def diagnostic : Fault → Diagnostic
  | unknownStart rule => { kind := .config, message := s!"unknown start rule '{rule}'" }
  | unresolved rule => { kind := .unresolvedRule, message := rule }
  | tooDeep rule limit offset =>
      { kind := .grammar
        message := s!"rule '{rule}' exceeded the nesting limit of {limit} calls"
        span := some (.point offset)
        help := some "raise max_depth, or check the grammar for runaway recursion" }
  | noProgress offset =>
      { kind := .grammar
        message := "repetition matched without consuming input"
        span := some (.point offset)
        help := some <| "the repeated term can succeed on empty input; " ++
          "make it consume at least one character" }

end Fault

/-- The cursor and the number of open rule calls. -/
structure Context where
  cursor : Cursor
  depth : Nat := 0
deriving DecidableEq

namespace Context

/-- The context at the start of a text, with no call open. -/
def start (text : String) : Context :=
  { cursor := .start text }

/-- The offset of the cursor. -/
def offset (context : Context) : Nat :=
  context.cursor.offset

/-- The context with its cursor at a saved place. -/
def restore (context : Context) (cursor : Cursor) : Context :=
  { context with cursor }

/-- Opens a rule call, unless the limit is reached. -/
def enterRule (limit : Nat) (rule : String) (context : Context) : Except Fault Context :=
  if limit ≤ context.depth then .error (.tooDeep rule limit context.offset)
  else .ok { context with depth := context.depth + 1 }

/-- Closes the innermost rule call. -/
def exitRule (context : Context) : Context :=
  { context with depth := context.depth - 1 }

/-- Demands that the cursor is no longer at the offset where a repeated item began. -/
def checkProgress (begun : Nat) (context : Context) : Except Fault Unit :=
  if context.offset = begun then .error (.noProgress context.offset) else .ok ()

end Context

end TracedGrammar

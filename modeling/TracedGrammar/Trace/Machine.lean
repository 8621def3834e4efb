import TracedGrammar.Program
import TracedGrammar.Trace.Event

/-!
# The stepping machine

A machine matches an expression with an explicit stack of frames, so that it can stop after any unit
of work. `Machine.advance` does one such unit: it resumes the top frame with the outcome of the term
that ended last, and queues the events that this causes. Values are not built but shown: each
expression works on a node of the display tree.

What the constructs show:

* literals and classes set the node's text and kind and consume;
* `stringify` runs its body on a node of its own that is never attached, and then sets the text;
* `optional` shows `null` where its body does not match;
* `repeated` attaches a child for each attempt and detaches the one of the failed last attempt;
* sequences attach a labelled child for each named part before the first part starts;
* choices reset the node before each alternative;
* rules report that they start and end, and a tagged rule shows its name.
-/

namespace TracedGrammar

/-- What is left to do: to start an expression on a node, or to go on with one after a part of it
has ended. Frames of attempts keep the place to return to and the number of events that came
before. -/
inductive Frame where
  | enter (expr : Expr) (node : NodeId)
  | stringify (node : NodeId) (start : Cursor)
  | optional (node : NodeId) (start : Cursor) (opened : Nat)
  /-- After `count` items have matched; `budget` bounds the number of further ones. -/
  | repeated (atLeastOne : Bool) (body : Expr) (node : NodeId) (start : Cursor)
      (opened count budget : Nat)
  | sequence (pending : List (Expr × NodeId))
  | choice (pending : List Expr) (node : NodeId) (start : Cursor) (opened : Nat)
  | ruleExit (rule : String)
  | callReturn

/-- The state of a match in progress. -/
structure Machine where
  context : Context
  /-- What is left to do, the next unit first. -/
  stack : List Frame
  /-- The events caused and not taken yet, in order. -/
  outbox : List Event := []
  /-- The number of events caused so far. -/
  emitted : Nat := 0
  /-- Whether the expression that ended last matched. -/
  matched : Bool := false
  /-- The number of node handles given out so far. -/
  allocated : Nat := 0
  /-- The number of characters of the text, which bounds the items of a repetition. -/
  textLength : Nat

namespace Machine

/-- The machine that is about to call a rule on a text. -/
def start (rule text : String) : Machine :=
  { context := .start text
    stack := [.enter (.call rule) .root]
    textLength := text.length }

/-- The machine with more events in its queue. -/
def emit (machine : Machine) (events : List Event) : Machine :=
  { machine with
    outbox := machine.outbox ++ events
    emitted := machine.emitted + events.length }

/-- The machine with a frame on top of its stack. -/
def push (machine : Machine) (frame : Frame) : Machine :=
  { machine with stack := frame :: machine.stack }

/-- A fresh node handle. -/
def allocate (machine : Machine) : NodeId × Machine :=
  (.afterCount machine.allocated, { machine with allocated := machine.allocated + 1 })

/-- The machine whose last expression ended with the given outcome. -/
def finish (machine : Machine) (matched : Bool) : Machine :=
  { machine with matched }

/-- The machine with its cursor put back after a failed attempt. -/
def rollback (machine : Machine) (start : Cursor) : Machine :=
  { machine with context := machine.context.restore start }.emit [.rollback start.offset]

/-- The machine with the text and the kind of a node set. -/
def display (machine : Machine) (node : NodeId) (text : String) (kind : NodeKind) : Machine :=
  machine.emit [.setText node text, .setKind node kind]

/-- The machine after a leaf: on a match it stands behind the leaf's text, which the node shows. -/
def leaf (machine : Machine) (node : NodeId) : Option (String × Cursor) → Machine
  | none => machine.finish false
  | some (text, after) =>
      ({ machine with context := machine.context.restore after }.finish true
        |>.display node (Json.quote text) .text).emit [.consume after.offset]

/-- The machine that is about to match a further item of a repetition, after `count` others. -/
def attempt (machine : Machine) (atLeastOne : Bool) (body : Expr) (node : NodeId)
    (count budget : Nat) : Machine :=
  let (child, machine) := machine.allocate
  let machine := machine.emit [.attach node count child]
  machine
    |>.push (.repeated atLeastOne body node machine.context.cursor machine.emitted count budget)
    |>.push (.enter body child)

/-- Gives a node to each part of a sequence. The nodes of named parts become labelled children, from
the index `named` on. -/
def openParts (node : NodeId) :
    (named : Nat) → List (Option String × Expr) → Machine → List (Expr × NodeId) × Machine
  | _, [], machine => ([], machine)
  | named, (field, expr) :: parts, machine =>
      let (child, machine) := machine.allocate
      match field with
      | some label =>
          let machine := machine.emit [.attach node named child, .setLabel child label]
          let (opened, machine) := openParts node (named + 1) parts machine
          ((expr, child) :: opened, machine)
      | none =>
          let (opened, machine) := openParts node named parts machine
          ((expr, child) :: opened, machine)

/-- Starts the first of the pending parts of a sequence; without any the sequence has matched. -/
def nextPart (machine : Machine) : List (Expr × NodeId) → Machine
  | [] => machine
  | (expr, node) :: pending => (machine.push (.sequence pending)).push (.enter expr node)

/-- Starts the first of the pending alternatives of a choice on a node that has been reset; without
any the choice has failed. -/
def nextAlternative (machine : Machine) (node : NodeId) (start : Cursor) (opened : Nat) :
    List Expr → Machine
  | [] => machine
  | expr :: pending =>
      (machine.emit [.reset node]).push (.choice pending node start opened)
        |>.push (.enter expr node)

/-- Starts an expression on a node. -/
def enter (program : Program) (expr : Expr) (node : NodeId) (machine : Machine) :
    Except Fault Machine :=
  let cursor := machine.context.cursor
  match expr with
  | .literal text =>
      .ok <| machine.leaf node ((cursor.eatLiteral? text).map fun after => (text, after))
  | .charClass set =>
      .ok <| machine.leaf node <| (cursor.eatChar? set.accepts).map fun (char, after) =>
        (String.singleton char, after)
  | .stringify body =>
      let (scratch, machine) := machine.allocate
      .ok <| (machine.push (.stringify node cursor)).push (.enter body scratch)
  | .optional body =>
      .ok <| (machine.push (.optional node cursor machine.emitted)).push (.enter body node)
  | .repeated atLeastOne body =>
      .ok <| (machine.display node "[]" .list).attempt atLeastOne body node 0 machine.textLength
  | .call rule =>
      match program.rules.resolve? rule with
      | none => .error (.unresolved rule)
      | some body =>
          match machine.context.enterRule program.maxDepth rule with
          | .error fault => .error fault
          | .ok context =>
              .ok <| ({ machine with context }.push .callReturn).push (.enter body node)
  | .empty => .ok <| machine.finish true
  | .append before field part =>
      let (opened, machine) := machine.openParts node 0 (Expr.append before field part).parts
      .ok <| machine.nextPart opened
  | .never => .ok <| machine.finish false
  | .orElse before alternative =>
      .ok <| machine.nextAlternative node cursor (machine.emitted + 1)
        (Expr.orElse before alternative).alternatives
  | .tagged rule body =>
      .ok <| ((machine.emit [.ruleEnter rule]).display node rule .record).push (.ruleExit rule)
        |>.push (.enter body node)
  | .untagged rule body =>
      .ok <| ((machine.emit [.ruleEnter rule]).push (.ruleExit rule)).push (.enter body node)
  | .located span body => .ok <| (machine.emit [.sourceSpan span]).push (.enter body node)

/-- Does the unit of work of a frame that was taken off the stack. -/
def advance (program : Program) (frame : Frame) (machine : Machine) : Except Fault Machine :=
  match frame with
  | .enter expr node => machine.enter program expr node
  | .stringify node start =>
      if machine.matched then
        .ok <| machine.display node (Json.quote (start.textTo machine.context.cursor)) .text
      else .ok machine
  | .optional node start _ =>
      if machine.matched then .ok machine
      else
        let missed := (machine.rollback start).emit [.reset node]
        .ok <| (missed.display node "null" .absent).finish true
  | .repeated atLeastOne body node start _ count budget =>
      if machine.matched then
        match machine.context.checkProgress start.offset, budget with
        | .error fault, _ => .error fault
        | .ok (), 0 => .error (.noProgress machine.context.offset)
        | .ok (), budget + 1 => .ok <| machine.attempt atLeastOne body node (count + 1) budget
      else
        .ok <| ((machine.rollback start).emit [.detach node]).finish (0 < count || !atLeastOne)
  | .sequence pending => .ok <| if machine.matched then machine.nextPart pending else machine
  | .choice pending node start opened =>
      .ok <| if machine.matched then machine
        else (machine.rollback start).nextAlternative node start opened pending
  | .ruleExit rule => .ok <| machine.emit [.ruleExit rule]
  | .callReturn => .ok { machine with context := machine.context.exitRule }

end Machine

end TracedGrammar

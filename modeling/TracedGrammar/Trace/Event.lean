import TracedGrammar.Json.Shape
import TracedGrammar.Json.Text
import TracedGrammar.Text.Span

/-!
# Trace events

A trace is a list of events in the order they happened. Nothing is taken back: undoing is an event
too, so a trace can be logged and replayed. Events that change the display tree name the node they
change by its handle.

Events and verdicts are written as JSON objects with a tag, and read back from them.
-/

namespace TracedGrammar

/-- The handle of a node of the display tree. -/
structure NodeId where
  index : Nat
deriving DecidableEq

namespace NodeId

/-- The node that the start rule shows in. -/
def root : NodeId := ⟨0⟩

/-- The handle given out after a number of others. Handles have 32 bits and start over beyond
that. -/
def afterCount (count : Nat) : NodeId :=
  ⟨(count + 1) % UInt32.size⟩

/-- The written form, `#index`. -/
def display (node : NodeId) : String :=
  s!"#{node.index}"

end NodeId

/-- What a node of the display tree shows. -/
inductive NodeKind where
  | pending
  | text
  | absent
  | list
  | record
deriving DecidableEq

namespace NodeKind

/-- All kinds. -/
def all : List NodeKind :=
  [pending, text, absent, list, record]

/-- The name of a kind in JSON. -/
def key : NodeKind → String
  | pending => "pending"
  | text => "text"
  | absent => "absent"
  | list => "list"
  | record => "record"

/-- The name of a kind in displayed events. -/
def display : NodeKind → String
  | pending => "Pending"
  | text => "Text"
  | absent => "Absent"
  | list => "List"
  | record => "Record"

end NodeKind

/-- One event of a trace. -/
inductive Event where
  /-- A rule starts. -/
  | ruleEnter (rule : String)
  /-- A rule ends, matched or not. -/
  | ruleExit (rule : String)
  /-- The range of the grammar text behind what follows. -/
  | sourceSpan (span : Span)
  /-- A leaf matched, up to an offset. -/
  | consume (offset : Nat)
  /-- A failed attempt put the cursor back to an offset. -/
  | rollback (offset : Nat)
  /-- A node gets its text. -/
  | setText (node : NodeId) (text : String)
  /-- A node gets its kind. -/
  | setKind (node : NodeId) (kind : NodeKind)
  /-- A node is labelled with the name of the field it shows. -/
  | setLabel (node : NodeId) (label : String)
  /-- A node becomes the child of another one, at an index among its children. -/
  | attach (parent : NodeId) (index : Nat) (child : NodeId)
  /-- A node loses its last child. -/
  | detach (parent : NodeId)
  /-- A node is pending again and loses all that is below it. -/
  | reset (node : NodeId)
deriving DecidableEq

namespace Event

/-- The node that an event changes. -/
def target? : Event → Option NodeId
  | setText node _ | setKind node _ | setLabel node _ | reset node => some node
  | attach parent _ _ | detach parent => some parent
  | ruleEnter _ | ruleExit _ | sourceSpan _ | consume _ | rollback _ => none

/-- The offset that an event moves the cursor to. -/
def offset? : Event → Option Nat
  | consume offset | rollback offset => some offset
  | _ => none

/-- The event as a line of text. -/
def display : Event → String
  | ruleEnter rule => s!"enter {rule}"
  | ruleExit rule => s!"exit {rule}"
  | sourceSpan span => s!"span {span.display}"
  | consume offset => s!"consume @{offset}"
  | rollback offset => s!"rollback @{offset}"
  | setText node text => s!"{node.display} text {text}"
  | setKind node kind => s!"{node.display} kind {kind.display}"
  | setLabel node label => s!"{node.display} prefix {label}"
  | attach parent index child => s!"{parent.display} attach {child.display} at {index}"
  | detach parent => s!"{parent.display} detach"
  | reset node => s!"{node.display} reset"

/-- The event as a JSON object. -/
def toJson : Event → Json
  | ruleEnter rule => .obj [("type", .str "ruleEnter"), ("name", .str rule)]
  | ruleExit rule => .obj [("type", .str "ruleExit"), ("name", .str rule)]
  | sourceSpan span =>
      .obj [("type", .str "sourceSpan"), ("from", .nat span.start), ("to", .nat span.stop)]
  | consume offset => .obj [("type", .str "consume"), ("pos", .nat offset)]
  | rollback offset => .obj [("type", .str "rollback"), ("pos", .nat offset)]
  | setText node text =>
      .obj [("type", .str "setText"), ("node", .nat node.index), ("text", .str text)]
  | setKind node kind =>
      .obj [("type", .str "setKind"), ("node", .nat node.index), ("kind", .str kind.key)]
  | setLabel node label =>
      .obj [("type", .str "setPrefix"), ("node", .nat node.index), ("prefix", .str label)]
  | attach parent index child =>
      .obj [("type", .str "attach"), ("parent", .nat parent.index), ("index", .nat index),
        ("child", .nat child.index)]
  | detach parent => .obj [("type", .str "detach"), ("parent", .nat parent.index)]
  | reset node => .obj [("type", .str "reset"), ("node", .nat node.index)]

/-- A node handle, of 32 bits. -/
def readNode? (json : Json) : Option NodeId :=
  (json.asNatBelow? UInt32.size).map NodeId.mk

/-- The name of a node kind. -/
def readKind? (json : Json) : Option NodeKind :=
  (json.choice? (NodeKind.all.map NodeKind.key)).bind fun position => NodeKind.all[position]?

/-- The event of a tag, read from the rest of its record. -/
def readBody? (tag : String) (body : Json) : Option Event :=
  match tag with
  | "ruleEnter" => do
      let [name] ← body.columns? ["name"] | none
      return ruleEnter (← (← name).asText?)
  | "ruleExit" => do
      let [name] ← body.columns? ["name"] | none
      return ruleExit (← (← name).asText?)
  | "sourceSpan" => do
      let [start, stop] ← body.columns? ["from", "to"] | none
      return sourceSpan ⟨← (← start).asOffset?, ← (← stop).asOffset?⟩
  | "consume" => do
      let [offset] ← body.columns? ["pos"] | none
      return consume (← (← offset).asOffset?)
  | "rollback" => do
      let [offset] ← body.columns? ["pos"] | none
      return rollback (← (← offset).asOffset?)
  | "setText" => do
      let [node, text] ← body.columns? ["node", "text"] | none
      return setText (← readNode? (← node)) (← (← text).asText?)
  | "setKind" => do
      let [node, kind] ← body.columns? ["node", "kind"] | none
      return setKind (← readNode? (← node)) (← readKind? (← kind))
  | "setPrefix" => do
      let [node, label] ← body.columns? ["node", "prefix"] | none
      return setLabel (← readNode? (← node)) (← (← label).asText?)
  | "attach" => do
      let [parent, index, child] ← body.columns? ["parent", "index", "child"] | none
      return attach (← readNode? (← parent)) (← (← index).asOffset?) (← readNode? (← child))
  | "detach" => do
      let [parent] ← body.columns? ["parent"] | none
      return detach (← readNode? (← parent))
  | "reset" => do
      let [node] ← body.columns? ["node"] | none
      return reset (← readNode? (← node))
  | _ => none

/-- The event that a JSON value stands for. -/
def ofJson? (json : Json) : Option Event := do
  let (tag, body) ← json.variant? "type"
  readBody? (← tag.asText?) body

end Event

/-- How a traced match ended: with the whole text consumed, or at an offset where the start rule
failed or, if it matched, stopped early. -/
inductive Verdict where
  | accepted (consumed : Nat)
  | rejected (offset : Nat) (matched : Bool)
deriving DecidableEq

namespace Verdict

/-- Whether the whole text was consumed. -/
def isAccepted : Verdict → Bool
  | accepted _ => true
  | rejected _ _ => false

/-- The offset where the cursor stopped. -/
def offset : Verdict → Nat
  | accepted consumed => consumed
  | rejected offset _ => offset

/-- The verdict as a JSON object. -/
def toJson : Verdict → Json
  | accepted consumed => .obj [("verdict", .str "accepted"), ("consumed", .nat consumed)]
  | rejected offset matched =>
      .obj [("verdict", .str "rejected"), ("position", .nat offset), ("matched", .bool matched)]

/-- The verdict that a JSON value stands for. -/
def ofJson? (json : Json) : Option Verdict := do
  let (tag, body) ← json.variant? "verdict"
  match ← tag.asText? with
  | "accepted" =>
      let [consumed] ← body.columns? ["consumed"] | none
      return accepted (← (← consumed).asOffset?)
  | "rejected" =>
      let [offset, matched] ← body.columns? ["position", "matched"] | none
      return rejected (← (← offset).asOffset?) (← (← matched).asBool?)
  | _ => none

end Verdict

end TracedGrammar

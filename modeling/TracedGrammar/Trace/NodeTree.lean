import Std.Data.TreeMap
import TracedGrammar.Trace.Event

/-!
# Display trees

The tree that a trace projects into, built from its events alone. A handle not seen before stands
for a new pending node. Nodes that are never attached stay out of reach of the root and are not
shown.

Events may come from any log, so nothing keeps a node from being attached below itself. Rendering
and counting follow children to a depth of the number of nodes only; a deeper path repeats a node,
and then there is nothing finite to show.
-/

namespace TracedGrammar

/-- A node of the display tree: its text, the field it shows if it shows one, its kind and its
children in order. -/
structure DisplayNode where
  text : String := "..."
  label : Option String := none
  kind : NodeKind := .pending
  children : Array NodeId := #[]
deriving DecidableEq

/-- The display nodes by the index of their handles. -/
structure NodeTree where
  nodes : Std.TreeMap Nat DisplayNode

namespace NodeTree

/-- The tree with a pending root alone. -/
def initial : NodeTree :=
  ⟨Std.TreeMap.empty.insert NodeId.root.index {}⟩

/-- The node of a handle. -/
def get? (tree : NodeTree) (node : NodeId) : Option DisplayNode :=
  tree.nodes[node.index]?

/-- The number of nodes, in reach of the root or not. -/
def size (tree : NodeTree) : Nat :=
  tree.nodes.size

/-- The tree with a node changed; a node not seen before is added first. -/
def update (tree : NodeTree) (node : NodeId) (change : DisplayNode → DisplayNode) : NodeTree :=
  ⟨tree.nodes.alter node.index fun old => some (change (old.getD {}))⟩

/-- The nodes that are left once the given ones and all below them are removed. -/
def removeAll (nodes : Std.TreeMap Nat DisplayNode) (pending : List NodeId) :
    Std.TreeMap Nat DisplayNode :=
  match pending with
  | [] => nodes
  | node :: pending =>
      match _stored : nodes[node.index]? with
      | none => removeAll nodes pending
      | some removed => removeAll (nodes.erase node.index) (removed.children.toList ++ pending)
termination_by (nodes.size, pending.length)
decreasing_by
  · exact Prod.Lex.right _ (Nat.lt_succ_self _)
  · apply Prod.Lex.left
    have present : nodes.contains node.index = true := by
      rw [Std.TreeMap.contains_eq_isSome_getElem?, _stored]
      rfl
    have positive : 0 < nodes.size := by
      rw [Nat.pos_iff_ne_zero]
      intro none_left
      have := Std.TreeMap.isEmpty_eq_size_eq_zero (t := nodes)
      simp_all [Std.TreeMap.contains_of_isEmpty]
    rw [Std.TreeMap.size_erase, if_pos present]
    omega

/-- The tree without the given nodes and all below them. -/
def remove (tree : NodeTree) (nodes : List NodeId) : NodeTree :=
  ⟨removeAll tree.nodes nodes⟩

/-- The children of a node of the tree; a node not seen before has none. -/
def children (tree : NodeTree) (node : NodeId) : Array NodeId :=
  ((tree.get? node).map DisplayNode.children).getD #[]

/-- The tree after an event. -/
def apply (tree : NodeTree) : Event → NodeTree
  | .setText node text => tree.update node ({ · with text })
  | .setKind node kind => tree.update node ({ · with kind })
  | .setLabel node label => tree.update node ({ · with label := some label })
  | .attach parent index child =>
      (tree.update child id).update parent fun node =>
        { node with
          children := node.children.insertIdxIfInBounds (min index node.children.size) child }
  | .detach parent =>
      let last := (tree.children parent).back?
      let popped := tree.update parent fun node => { node with children := node.children.pop }
      popped.remove last.toList
  | .reset node =>
      let below := (tree.children node).toList
      (tree.update node fun old => { label := old.label }).remove below
  | .ruleEnter _ | .ruleExit _ | .sourceSpan _ | .consume _ | .rollback _ => tree

/-- The tree of a whole trace. -/
def replay (events : List Event) : NodeTree :=
  events.foldl apply initial

/-- The blanks in front of a line of a level. -/
def indent (level : Nat) : String :=
  String.ofList (List.replicate (2 * level) ' ')

/-- The text before a node's children and the brackets around them, if its kind shows children. -/
def brackets? (node : DisplayNode) : Option (String × String) :=
  match node.kind with
  | .record => some (node.text ++ " \x7b", "\x7d")
  | .list => some ("[", "]")
  | .pending | .text | .absent => none

/-- Appends a node that stands at a level to a text, unless it has descendants beyond the given
depth. -/
def renderNode? (tree : NodeTree) : (depth level : Nat) → NodeId → String → Option String
  | 0, _, _, _ => none
  | depth + 1, level, id, shown =>
      match tree.get? id with
      | none => some shown
      | some node =>
          let shown := match node.label with
            | some label => shown ++ label ++ ": "
            | none => shown
          match brackets? node with
          | none => some (shown ++ node.text)
          | some (opening, closing) =>
              if node.children.isEmpty then some (shown ++ opening ++ closing)
              else do
                let shown ← node.children.toList.foldlM
                  (fun shown child => do
                    let shown ←
                      tree.renderNode? depth (level + 1) child (shown ++ indent (level + 1))
                    return shown ++ "\n")
                  (shown ++ opening ++ "\n")
                return shown ++ indent level ++ closing

/-- The text of the tree below the root, unless it runs in a circle. -/
def render? (tree : NodeTree) : Option String :=
  tree.renderNode? (tree.size + 1) 0 .root ""

/-- The number of nodes from a node on, each counted as often as it is reached, unless it has
descendants beyond the given depth. -/
def countFrom? (tree : NodeTree) : (depth : Nat) → NodeId → Option Nat
  | 0, _ => none
  | depth + 1, id =>
      match tree.get? id with
      | none => some 0
      | some node =>
          node.children.toList.foldlM
            (fun count child => do return count + (← tree.countFrom? depth child)) 1

/-- The number of nodes that the root reaches, unless the tree runs in a circle. -/
def reachable? (tree : NodeTree) : Option Nat :=
  tree.countFrom? (tree.size + 1) .root

end NodeTree

end TracedGrammar

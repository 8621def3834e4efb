import TracedGrammar.Proofs.Trace.Derivation
import TracedGrammar.Trace.NodeTree

/-!
# What events do to a display tree

The laws of the operations that a display tree is built by, each in terms of the nodes that can be
looked up afterwards. Removal is the only one that reaches beyond the nodes an event names: it takes
away what is below a node, so nothing changes outside a set of handles that is closed under children
(`get_remove_of_closed`).
-/

namespace TracedGrammar.NodeTree

variable {tree : NodeTree} {id node : NodeId}

/-- The field that a node shows, if it shows one. -/
def label? (tree : NodeTree) (id : NodeId) : Option String :=
  (tree.get? id).bind DisplayNode.label

theorem index_ne {id node : NodeId} (h : id ≠ node) : id.index ≠ node.index :=
  fun same => h (by cases id; cases node; cases same; rfl)

theorem get_initial_root : initial.get? .root = some {} := by
  rw [get?, initial, Std.TreeMap.getElem?_insert_self]

theorem get_initial_of_ne (h : id ≠ .root) : initial.get? id = none := by
  rw [get?, initial, Std.TreeMap.getElem?_insert]
  simp [(index_ne h).symm]

theorem get_update_self (change : DisplayNode → DisplayNode) :
    (tree.update node change).get? node = some (change ((tree.get? node).getD {})) := by
  rw [get?, update, Std.TreeMap.getElem?_alter]
  simp [get?]

theorem get_update_of_ne (h : id ≠ node) (change : DisplayNode → DisplayNode) :
    (tree.update node change).get? id = tree.get? id := by
  rw [get?, update, Std.TreeMap.getElem?_alter]
  simp [get?, (index_ne h).symm]

/-- Removal takes nodes away and changes no other. -/
theorem get_removeAll (nodes : Std.TreeMap Nat DisplayNode) (pending : List NodeId) (index : Nat) :
    (removeAll nodes pending)[index]? = none ∨
      (removeAll nodes pending)[index]? = nodes[index]? := by
  fun_induction removeAll nodes pending with
  | case1 nodes => exact .inr rfl
  | case2 nodes node pending missing ih => exact ih
  | case3 nodes node pending removed stored ih =>
      rcases ih with gone | kept
      · exact .inl gone
      · rw [kept, Std.TreeMap.getElem?_erase]
        split
        · exact .inl rfl
        · exact .inr rfl

/-- Removal changes nothing outside a set that is closed under children. -/
theorem get_removeAll_of_closed {region : NodeId → Prop} (nodes : Std.TreeMap Nat DisplayNode)
    (pending : List NodeId) (starts : ∀ node ∈ pending, region node)
    (closed : ∀ parent node, region parent → nodes[parent.index]? = some node →
      ∀ child ∈ node.children, region child)
    (outside : ¬ region id) : (removeAll nodes pending)[id.index]? = nodes[id.index]? := by
  fun_induction removeAll nodes pending with
  | case1 nodes => rfl
  | case2 nodes node pending missing ih =>
      exact ih (fun other among => starts other (.tail _ among)) closed
  | case3 nodes node pending removed stored ih =>
      have inside := starts node List.mem_cons_self
      have other : id.index ≠ node.index := index_ne fun same => outside (same ▸ inside)
      rw [ih, Std.TreeMap.getElem?_erase]
      · simp [other.symm]
      · intro child among
        rcases List.mem_append.mp among with below | waiting
        · exact closed node removed inside stored child (Array.mem_toList_iff.mp below)
        · exact starts child (.tail _ waiting)
      · intro parent found at_parent kept
        rw [Std.TreeMap.getElem?_erase] at kept
        split at kept
        · cases kept
        · exact closed parent found at_parent kept

theorem get_remove (tree : NodeTree) (pending : List NodeId) (id : NodeId) :
    (tree.remove pending).get? id = none ∨ (tree.remove pending).get? id = tree.get? id :=
  get_removeAll tree.nodes pending id.index

theorem get_remove_of_closed {region : NodeId → Prop} {pending : List NodeId}
    (starts : ∀ node ∈ pending, region node)
    (closed : ∀ parent, region parent → ∀ child ∈ tree.children parent, region child)
    (outside : ¬ region id) : (tree.remove pending).get? id = tree.get? id := by
  refine get_removeAll_of_closed tree.nodes pending starts ?_ outside
  intro parent node inside stored child among
  refine closed parent inside child ?_
  rw [children, get?, stored]
  exact among

theorem children_of_get {stored : DisplayNode} (h : tree.get? node = some stored) :
    tree.children node = stored.children := by
  rw [children, h]
  rfl

theorem children_of_none (h : tree.get? node = none) : tree.children node = #[] := by
  rw [children, h]
  rfl

theorem children_getD (tree : NodeTree) (node : NodeId) :
    ((tree.get? node).getD {}).children = tree.children node := by
  rw [children]
  cases tree.get? node <;> rfl

theorem children_congr {before after : NodeTree} (h : after.get? id = before.get? id) :
    after.children id = before.children id := by
  rw [children, children, h]

/-- A handle has a node. -/
def Holds (tree : NodeTree) (id : NodeId) : Prop :=
  tree.get? id ≠ none

theorem holds_of_get {stored : DisplayNode} (h : tree.get? id = some stored) : tree.Holds id := by
  simp [Holds, h]

theorem holds_congr {before after : NodeTree}
    (h : after.get? id = before.get? id) : after.Holds id ↔ before.Holds id := by
  rw [Holds, Holds, h]

theorem holds_update_iff (change : DisplayNode → DisplayNode) :
    (tree.update node change).Holds id ↔ id = node ∨ tree.Holds id := by
  by_cases same : id = node
  · subst same
    simp [holds_of_get (get_update_self change)]
  · rw [holds_congr (get_update_of_ne same change)]
    simp [same]

theorem holds_of_holds_remove {pending : List NodeId} (held : (tree.remove pending).Holds id) :
    tree.Holds id := by
  rcases get_remove tree pending id with gone | kept
  · exact absurd gone held
  · exact (holds_congr kept).mp held

/-- The tree after some events. -/
def play (tree : NodeTree) (events : List Event) : NodeTree :=
  events.foldl apply tree

@[simp] theorem play_nil : tree.play [] = tree :=
  rfl

@[simp] theorem play_cons (event : Event) (events : List Event) :
    tree.play (event :: events) = (tree.apply event).play events :=
  rfl

@[simp] theorem play_append (events more : List Event) :
    tree.play (events ++ more) = (tree.play events).play more :=
  List.foldl_append

theorem play_shows_self (text : String) (kind : NodeKind) :
    (tree.play (Event.shows node text kind)).get? node =
      some { (tree.get? node).getD {} with text, kind } := by
  rw [Event.shows, play_cons, play_cons, play_nil, apply, apply, get_update_self, get_update_self]
  rfl

theorem play_shows_of_ne (h : id ≠ node) (text : String) (kind : NodeKind) :
    (tree.play (Event.shows node text kind)).get? id = tree.get? id := by
  rw [Event.shows, play_cons, play_cons, play_nil, apply, apply, get_update_of_ne h,
    get_update_of_ne h]

theorem get_attach_parent {stored : DisplayNode} {child : NodeId} (other : node ≠ child)
    (h : tree.get? node = some stored) :
    (tree.apply (.attach node stored.children.size child)).get? node =
      some { stored with children := stored.children.push child } := by
  rw [apply, get_update_self, get_update_of_ne other, h]
  simp [Array.insertIdxIfInBounds]

theorem get_attach_child {child : NodeId} (other : node ≠ child) (index : Nat) :
    (tree.apply (.attach node index child)).get? child = some ((tree.get? child).getD {}) := by
  rw [apply, get_update_of_ne other.symm, get_update_self]
  rfl

theorem get_attach_of_ne {child : NodeId} (not_parent : id ≠ node) (not_child : id ≠ child)
    (index : Nat) : (tree.apply (.attach node index child)).get? id = tree.get? id := by
  rw [apply, get_update_of_ne not_parent, get_update_of_ne not_child]

/-- What is left after a node was changed and some nodes were removed with all below them. The
region is a set of handles that the removed nodes are in; it is closed under children, and the
changed node is not in it. -/
structure Cut (before after : NodeTree) (region : NodeId → Prop) (node : NodeId)
    (changed : DisplayNode) : Prop where
  self : after.get? node = some changed
  outside : ∀ id, id ≠ node → ¬ region id → after.get? id = before.get? id
  less : ∀ id, id ≠ node → after.get? id = none ∨ after.get? id = before.get? id

theorem cut_update_remove {region : NodeId → Prop} {pending : List NodeId}
    (change : DisplayNode → DisplayNode) (starts : ∀ child ∈ pending, region child)
    (closed : ∀ parent, region parent → ∀ child ∈ tree.children parent, region child)
    (apart : ¬ region node) :
    Cut tree ((tree.update node change).remove pending) region node
      (change ((tree.get? node).getD {})) := by
  have still_closed : ∀ parent, region parent →
      ∀ child ∈ (tree.update node change).children parent, region child := by
    intro parent inside child among
    have other : parent ≠ node := fun same => apart (same ▸ inside)
    exact closed parent inside child (children_congr (get_update_of_ne other change) ▸ among)
  constructor
  · rw [get_remove_of_closed starts still_closed apart, get_update_self]
  · intro id other outside
    rw [get_remove_of_closed starts still_closed outside, get_update_of_ne other]
  · intro id other
    rcases get_remove (tree.update node change) pending id with gone | kept
    · exact .inl gone
    · exact .inr (kept.trans (get_update_of_ne other change))

/-- A reset node keeps its label only, and what was below it is gone. -/
theorem cut_reset {region : NodeId → Prop}
    (starts : ∀ child ∈ tree.children node, region child)
    (closed : ∀ parent, region parent → ∀ child ∈ tree.children parent, region child)
    (apart : ¬ region node) :
    Cut tree (tree.apply (.reset node)) region node { label := tree.label? node } := by
  have cut := cut_update_remove (fun old : DisplayNode => { label := old.label })
    (fun child among => starts child (Array.mem_toList_iff.mp among)) closed apart
  have label_eq : ((tree.get? node).getD {}).label = tree.label? node := by
    rw [label?]
    cases tree.get? node <;> rfl
  rw [label_eq] at cut
  exact cut

/-- A node loses its last child and all below it. -/
theorem cut_detach {region : NodeId → Prop} {stored : DisplayNode} {child : NodeId}
    (h : tree.get? node = some { stored with children := stored.children.push child })
    (starts : region child)
    (closed : ∀ parent, region parent → ∀ child ∈ tree.children parent, region child)
    (apart : ¬ region node) : Cut tree (tree.apply (.detach node)) region node stored := by
  have last : (tree.children node).back? = some child := by
    rw [children_of_get h]
    simp
  have all_start : ∀ other ∈ [child], region other := by simpa using starts
  have cut := cut_update_remove (fun old : DisplayNode => { old with children := old.children.pop })
    all_start closed apart
  rw [h] at cut
  rw [apply, last]
  simpa using cut

end TracedGrammar.NodeTree

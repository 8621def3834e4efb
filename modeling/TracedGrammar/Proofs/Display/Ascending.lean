import TracedGrammar.Proofs.Display.Forest

/-!
# Trees whose children have higher handles

Handles are given out in order, and a node is attached below one that is there already. So children
have higher handles than their parents, and events on nodes with high handles leave all others as
they are, although `reset` and `detach` remove whatever is below their node (`Ascending.get_play`).
What `detach` does to such a tree can be said exactly: it takes away the last child of a node with
all that is below it, and nothing else (`Ascending.loses_detach`).
-/

namespace TracedGrammar.NodeTree

/-- Children have higher handles than their parents. -/
def Ascending (tree : NodeTree) : Prop :=
  ∀ parent child, tree.IsChild parent child → parent.index < child.index

/-- A node is another one or below it. -/
def Below (tree : NodeTree) : NodeId → NodeId → Prop :=
  Relation.ReflTransGen tree.IsChild

/-- A tree and what is left of it when a node loses its last child: the child is gone with all that
is below it, and everything else is as it was. -/
structure Loses (before after : NodeTree) (parent child : NodeId) : Prop where
  last : ∃ stored, after.get? parent = some stored ∧
    before.get? parent = some { stored with children := stored.children.push child }
  gone : ∀ id, before.Below child id → after.get? id = none
  kept : ∀ id, id ≠ parent → ¬ before.Below child id → after.get? id = before.get? id

section

variable {tree before after : NodeTree} {parent child id node : NodeId} {bound : Nat}
  {event : Event} {events earlier : List Event}

/-- Removal of a node removes everything below it. -/
theorem get_remove_of_below {pending : List NodeId} (starts : child ∈ pending)
    (below : tree.Below child id) : (tree.remove pending).get? id = none := by
  obtain ⟨nodes⟩ := tree
  show (removeAll nodes pending)[id.index]? = none
  fun_induction removeAll nodes pending generalizing child id with
  | case1 nodes => cases starts
  | case2 nodes node pending missing ih =>
      rcases List.mem_cons.mp starts with rfl | waiting
      · -- a node that is not there has nothing below it
        rcases below.cases_head with rfl | ⟨next, listed, -⟩
        · rcases get_removeAll nodes pending child.index with gone | kept
          · exact gone
          · rw [kept, missing]
        · rw [IsChild, children_of_none missing] at listed
          simp at listed
      · exact ih waiting below
  | case3 nodes node pending removed stored ih =>
      -- a way down either comes by the erased node, or it is still there
      have way : id = node ∨ ∃ start ∈ removed.children.toList ++ pending,
          (NodeTree.mk (nodes.erase node.index)).Below start id := by
        induction below with
        | refl =>
            rcases List.mem_cons.mp starts with same | waiting
            · exact .inl same
            · exact .inr ⟨child, List.mem_append_right _ waiting, .refl⟩
        | @tail middle last _ listed ih =>
            refine .inr ?_
            by_cases same : middle = node
            · subst same
              rw [IsChild, children_of_get stored, ← Array.mem_toList_iff] at listed
              exact ⟨last, List.mem_append_left _ listed, .refl⟩
            · obtain ⟨start, among, below⟩ := ih.resolve_left same
              have kept : (NodeTree.mk (nodes.erase node.index)).get? middle =
                  (NodeTree.mk nodes).get? middle := by
                rw [get?, Std.TreeMap.getElem?_erase]
                simp [get?, (index_ne same).symm]
              exact ⟨start, among, below.tail (by rwa [IsChild, children_congr kept])⟩
      rcases way with rfl | ⟨start, among, below⟩
      · rcases get_removeAll (nodes.erase id.index) (removed.children.toList ++ pending)
          id.index with gone | kept
        · exact gone
        · rw [kept, Std.TreeMap.getElem?_erase_self]
      · exact ih among below

/-- A change of a node that is not below another one leaves what is below this one. -/
theorem below_update_of_apart {change : DisplayNode → DisplayNode} (apart : ¬ tree.Below child node)
    (below : tree.Below child id) : (tree.update node change).Below child id := by
  induction below with
  | refl => exact .refl
  | @tail middle last way listed ih =>
      have other : middle ≠ node := fun same => apart (same ▸ way)
      exact ih.tail (by rwa [IsChild, children_update_of_ne other])

/-- A node whose last child is detached loses this child with all below it, and nothing else, if it
is not below the child itself. -/
theorem loses_detach_of_apart {stored : DisplayNode} (apart : ¬ tree.Below child node)
    (at_node : tree.get? node = some { stored with children := stored.children.push child }) :
    tree.Loses (tree.apply (.detach node)) node child := by
  have cut := cut_detach at_node Relation.ReflTransGen.refl
    (fun parent below other among => below.tail among) apart
  refine ⟨⟨stored, cut.self, at_node⟩, fun id below => ?_, cut.outside⟩
  have back : (tree.children node).back? = some child := by
    rw [children_of_get at_node]
    simp
  rw [NodeTree.apply, back]
  exact get_remove_of_below List.mem_cons_self (below_update_of_apart apart below)

namespace Ascending

theorem index_le (h : tree.Ascending) (below : tree.Below parent id) : parent.index ≤ id.index := by
  induction below with
  | refl => exact Nat.le_refl _
  | tail _ listed ih => exact ih.trans (h _ _ listed).le

/-- A tree stays ascending if the attached nodes have higher handles than their parents. -/
theorem apply (h : tree.Ascending)
    (up : ∀ parent index child, event = .attach parent index child → parent.index < child.index) :
    (tree.apply event).Ascending := by
  intro parent child listed
  rcases isChild_apply event listed with old | ⟨index, attached⟩
  · exact h parent child old
  · exact up parent index child attached

/-- What is below a changed node has a higher handle, so that its removal does not reach others. -/
theorem cut (h : tree.Ascending) {pending : List NodeId} (change : DisplayNode → DisplayNode)
    (starts : ∀ child ∈ pending, tree.IsChild node child) :
    Cut tree ((tree.update node change).remove pending) (fun id => node.index < id.index) node
      (change ((tree.get? node).getD {})) :=
  cut_update_remove change (fun child among => h node child (starts child among))
    (fun parent above child listed => above.trans (h parent child listed)) (Nat.lt_irrefl _)

/-- An event on nodes with handles above a bound changes no other node. -/
theorem get_apply (h : tree.Ascending) (above : ∀ id ∈ event.handles, bound < id.index)
    (old : id.index ≤ bound) : (tree.apply event).get? id = tree.get? id := by
  have other (node : NodeId) (among : node ∈ event.handles) : id ≠ node := by
    rintro rfl
    exact absurd (above id among) (Nat.not_lt.mpr old)
  cases event with
  | setText node | setKind node | setLabel node =>
      exact get_update_of_ne (other node (by simp [Event.handles, Event.target?])) _
  | attach parent index child =>
      exact get_attach_of_ne (other parent (by simp [Event.handles]))
        (other child (by simp [Event.handles])) index
  | detach node =>
      have high := above node (by simp [Event.handles, Event.target?])
      exact (h.cut _ fun child among => Array.mem_of_back? (Option.mem_toList.mp among)).outside id
        (other node (by simp [Event.handles, Event.target?])) (by omega)
  | reset node =>
      have high := above node (by simp [Event.handles, Event.target?])
      exact (h.cut _ fun child among => Array.mem_toList_iff.mp among).outside id
        (other node (by simp [Event.handles, Event.target?])) (by omega)
  | ruleEnter | ruleExit | sourceSpan | consume | rollback => rfl

/-- Events on nodes with handles above a bound change no other node. -/
theorem get_play (h : tree.Ascending) (above : ∀ id, Mentions events id → bound < id.index)
    (up : ∀ parent index child, .attach parent index child ∈ events → parent.index < child.index)
    (old : id.index ≤ bound) : (tree.play events).get? id = tree.get? id := by
  induction events generalizing tree with
  | nil => rfl
  | cons event events ih =>
      have next : (tree.apply event).Ascending := h.apply fun parent index child same =>
        up parent index child (same ▸ List.mem_cons_self)
      rw [play_cons, ih next (fun id later => above id (by simp [later]))
        fun parent index child later => up parent index child (.tail _ later)]
      exact h.get_apply (fun id among => above id (by simp [among])) old

/-- A node whose last child is detached loses this child with all below it, and nothing else. -/
theorem loses_detach {stored : DisplayNode} (h : tree.Ascending)
    (at_node : tree.get? node = some { stored with children := stored.children.push child }) :
    tree.Loses (tree.apply (.detach node)) node child := by
  have listed : tree.IsChild node child := by
    rw [IsChild, children_of_get at_node]
    exact Array.mem_push_self
  have apart : ¬ tree.Below child node := fun below =>
    absurd (h.index_le below) (Nat.not_le.mpr (h node child listed))
  exact loses_detach_of_apart apart at_node

end Ascending

end

end TracedGrammar.NodeTree

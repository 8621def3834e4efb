import Mathlib
import TracedGrammar.Proofs.Display.Tree

/-!
# Display trees are forests

Any list of events can be replayed, and nothing in `NodeTree.apply` keeps a node from being listed
twice or below itself. What does is that a node is attached before anything else is done with it: if
each attached node has a handle that no earlier event mentions, the replayed tree is a forest after
every event (`forest_of_fresh`). Only `attach` adds to the children of a node, all other events take
some away at most (`children_apply`).
-/

namespace TracedGrammar

/-- The handles that an event mentions: the node it changes and the node it attaches. -/
def Event.handles : Event → List NodeId
  | attach parent _ child => [parent, child]
  | event => event.target?.toList

theorem Event.mem_handles_of_target {event : Event} {node : NodeId}
    (h : event.target? = some node) : node ∈ event.handles := by
  cases event with
  | attach parent index child =>
      cases h
      exact List.mem_cons_self
  | _ => exact Option.mem_toList.mpr h

/-- Some of the events mention a handle. -/
def Mentions (events : List Event) (id : NodeId) : Prop :=
  ∃ event ∈ events, id ∈ event.handles

section

variable {events more : List Event} {event : Event} {parent child node id : NodeId}

@[simp] theorem not_mentions_nil : ¬ Mentions [] id := by
  simp [Mentions]

@[simp] theorem mentions_cons_iff :
    Mentions (event :: events) id ↔ id ∈ event.handles ∨ Mentions events id := by
  simp [Mentions]

@[simp] theorem mentions_append_iff :
    Mentions (events ++ more) id ↔ Mentions events id ∨ Mentions more id := by
  simp only [Mentions, List.mem_append, or_and_right, exists_or]

@[simp] theorem mentions_shows_iff (text : String) (kind : NodeKind) :
    Mentions (Event.shows node text kind) id ↔ id = node := by
  simp [Event.shows, Event.handles, Event.target?, eq_comm]

theorem mentions_leaf (text : String) (after : Cursor)
    (h : Mentions (Event.leaf node text after) id) : id = node := by
  simpa [Event.leaf, Event.handles, Event.target?] using h

@[simp] theorem not_mentions_closeRule (rule : String) (reply : Reply) :
    ¬ Mentions (Event.closeRule rule reply) id := by
  cases reply <;> simp [Event.closeRule, Event.handles, Event.target?]

@[simp] theorem not_mentions_putBack (start : Nat) (reply : Reply) :
    ¬ Mentions (Event.putBack start reply) id := by
  unfold Event.putBack
  split <;> simp [Event.handles, Event.target?]

theorem mentions_of_attach {index : Nat} (h : .attach parent index child ∈ events) :
    Mentions events parent ∧ Mentions events child :=
  ⟨⟨_, h, by simp [Event.handles]⟩, ⟨_, h, by simp [Event.handles]⟩⟩

end

namespace NodeTree

/-- A node lists another one as its child. -/
def IsChild (tree : NodeTree) (parent child : NodeId) : Prop :=
  child ∈ tree.children parent

/-- No node is listed twice, be it by one parent or by two. -/
structure ListedOnce (tree : NodeTree) : Prop where
  nodup : ∀ parent, (tree.children parent).toList.Nodup
  one_parent : ∀ parent other child, tree.IsChild parent child → tree.IsChild other child →
    parent = other

/-- No node is listed twice, be it by one parent or by two, none is below itself, and the root is
not below any. -/
structure IsForest (tree : NodeTree) : Prop where
  nodup : ∀ parent, (tree.children parent).toList.Nodup
  one_parent : ∀ parent other child, tree.IsChild parent child → tree.IsChild other child →
    parent = other
  acyclic : ∀ id, ¬ Relation.TransGen tree.IsChild id id
  root_free : ∀ parent, ¬ tree.IsChild parent .root

/-- Nodes are only attached where the events before allow it. -/
def Attaching (allowed : List Event → (parent child : NodeId) → Prop) (events : List Event) :
    Prop :=
  ∀ earlier parent index child later, events = earlier ++ .attach parent index child :: later →
    allowed earlier parent child

/-- Attached nodes are to be nodes that no event has mentioned yet, other than the root and the
parent. -/
def FreshlyAttached (events : List Event) : Prop :=
  ∀ earlier parent index child later, events = earlier ++ .attach parent index child :: later →
    child ≠ .root ∧ child ≠ parent ∧ ¬ Mentions earlier child

section

variable {tree before after : NodeTree} {parent child id node : NodeId} {index : Nat}
  {event : Event} {events : List Event}

theorem replay_append (events more : List Event) :
    replay (events ++ more) = (replay events).play more :=
  List.foldl_append

theorem replay_concat (events : List Event) (event : Event) :
    replay (events ++ [event]) = (replay events).apply event :=
  replay_append events [event]

/-- A change of a node changes its children only as it says. -/
theorem children_update_self (change : DisplayNode → DisplayNode) :
    (tree.update node change).children node = (change ((tree.get? node).getD {})).children :=
  children_of_get (get_update_self change)

theorem children_update_of_ne (other : id ≠ node) (change : DisplayNode → DisplayNode) :
    (tree.update node change).children id = tree.children id :=
  children_congr (get_update_of_ne other change)

/-- A change that keeps the children of a node keeps those of all. -/
theorem children_update_of_kept {change : DisplayNode → DisplayNode}
    (kept : ∀ old, (change old).children = old.children) (id : NodeId) :
    (tree.update node change).children id = tree.children id := by
  by_cases same : id = node
  · subst same
    rw [children_update_self, kept, children_getD]
  · exact children_update_of_ne same change

/-- Removal leaves the children of a node as they are, or the node is gone. -/
theorem children_remove (tree : NodeTree) (pending : List NodeId) (id : NodeId) :
    (tree.remove pending).children id = #[] ∨
      (tree.remove pending).children id = tree.children id :=
  (get_remove tree pending id).imp children_of_none children_congr

/-- Only `attach` adds to the children of a node. -/
theorem children_apply (no_attach : ∀ parent index child, event ≠ .attach parent index child)
    (id : NodeId) : ((tree.apply event).children id).toList.Sublist (tree.children id).toList := by
  have of_removed {before : NodeTree} (pending : List NodeId)
      (fewer : (before.children id).toList.Sublist (tree.children id).toList) :
      ((before.remove pending).children id).toList.Sublist (tree.children id).toList := by
    rcases children_remove before pending id with gone | kept
    · rw [gone]
      exact List.nil_sublist _
    · rwa [kept]
  have of_kept {node : NodeId} {change : DisplayNode → DisplayNode}
      (kept : ∀ old, (change old).children = old.children) :
      ((tree.update node change).children id).toList.Sublist (tree.children id).toList := by
    rw [children_update_of_kept kept]
  cases event with
  | setText node text => exact of_kept fun _ => rfl
  | setKind node kind => exact of_kept fun _ => rfl
  | setLabel node label => exact of_kept fun _ => rfl
  | attach parent index child => exact absurd rfl (no_attach parent index child)
  | detach parent =>
      refine of_removed _ ?_
      by_cases same : id = parent
      · subst same
        rw [children_update_self, Array.toList_pop, children_getD]
        exact List.dropLast_sublist _
      · rw [children_update_of_ne same]
  | reset node =>
      refine of_removed _ ?_
      by_cases same : id = node
      · subst same
        rw [children_update_self]
        exact List.nil_sublist _
      · rw [children_update_of_ne same]
  | ruleEnter | ruleExit | sourceSpan | consume | rollback => exact List.Sublist.refl _

/-- A node that is reset has nothing below it. -/
theorem children_reset : (tree.apply (.reset node)).children node = #[] := by
  rcases children_remove (tree.update node fun old => { label := old.label })
    (tree.children node).toList node with gone | kept
  · exact gone
  · rw [apply, kept, children_update_self]

theorem children_attach_of_ne (other : id ≠ parent) :
    (tree.apply (.attach parent index child)).children id = tree.children id := by
  rw [apply, children_update_of_ne other]
  exact children_update_of_kept (fun _ => rfl) id

/-- Attaching a node behind the children of another one. -/
theorem get_attach_last (other : node ≠ child) :
    (tree.apply (.attach node (tree.children node).size child)).get? node =
      some { (tree.get? node).getD {} with children := (tree.children node).push child } := by
  rw [apply, get_update_self, get_update_of_ne other, children_getD]
  simp [Array.insertIdxIfInBounds]

/-- The parent of an attached node lists it besides its other children. -/
theorem perm_children_attach :
    ((tree.apply (.attach parent index child)).children parent).toList.Perm
      (child :: (tree.children parent).toList) := by
  have kept : (tree.update child fun old => old).children parent = tree.children parent :=
    children_update_of_kept (fun _ => rfl) parent
  have listed : (tree.apply (.attach parent index child)).children parent =
      (tree.children parent).insertIdxIfInBounds (min index (tree.children parent).size)
        child := by
    rw [← kept, apply, children_update_self]
    exact congrArg (fun children : Array NodeId =>
      children.insertIdxIfInBounds (min index children.size) child) (children_getD _ _)
  have within : min index (tree.children parent).size ≤ (tree.children parent).size :=
    Nat.min_le_right ..
  rw [listed, Array.insertIdxIfInBounds, dif_pos within, Array.toList_insertIdx]
  exact List.perm_insertIdx _ _ (by simp)

/-- Attaching a node adds it below its parent, and nothing else. -/
theorem isChild_attach_iff {other : NodeId} :
    (tree.apply (.attach parent index child)).IsChild other id ↔
      tree.IsChild other id ∨ other = parent ∧ id = child := by
  rw [IsChild, IsChild]
  by_cases same : other = parent
  · subst same
    rw [← Array.mem_toList_iff, perm_children_attach.mem_iff, List.mem_cons, Array.mem_toList_iff]
    tauto
  · rw [children_attach_of_ne same]
    tauto

/-- What is listed after some children were taken away was listed before. -/
theorem isChild_of_sublist
    (less : ∀ id, (after.children id).toList.Sublist (before.children id).toList)
    (listed : after.IsChild parent child) : before.IsChild parent child :=
  Array.mem_toList_iff.mp ((less parent).subset (Array.mem_toList_iff.mpr listed))

theorem ListedOnce.shrink (h : before.ListedOnce)
    (less : ∀ id, (after.children id).toList.Sublist (before.children id).toList) :
    after.ListedOnce where
  nodup parent := (h.nodup parent).sublist (less parent)
  one_parent parent other child listed listed' := h.one_parent parent other child
    (isChild_of_sublist less listed) (isChild_of_sublist less listed')

/-- Attaching a node lists it once if it was not listed. -/
theorem ListedOnce.attach (h : tree.ListedOnce) (no_parent : ∀ id, ¬ tree.IsChild id child) :
    (tree.apply (.attach parent index child)).ListedOnce := by
  constructor
  · intro id
    by_cases same : id = parent
    · subst same
      rw [perm_children_attach.nodup_iff, List.nodup_cons]
      exact ⟨fun among => no_parent id (Array.mem_toList_iff.mp among), h.nodup id⟩
    · rw [children_attach_of_ne same]
      exact h.nodup id
  · intro first second id listed listed'
    rcases isChild_attach_iff.mp listed with old | ⟨rfl, rfl⟩
    · rcases isChild_attach_iff.mp listed' with old' | ⟨rfl, rfl⟩
      · exact h.one_parent first second id old old'
      · exact absurd old (no_parent first)
    · rcases isChild_attach_iff.mp listed' with old' | ⟨rfl, -⟩
      · exact absurd old' (no_parent second)
      · rfl

/-- Attaching a node leads into no circle if its parent was not below it. -/
theorem acyclic_attach (acyclic : ∀ id, ¬ Relation.TransGen tree.IsChild id id)
    (apart : ¬ Relation.ReflTransGen tree.IsChild child parent) (id : NodeId) :
    ¬ Relation.TransGen (tree.apply (.attach parent index child)).IsChild id id := by
  -- a way down is an old one, or it leads by the parent to the new child
  have way_cases {first last : NodeId}
      (way : Relation.TransGen (tree.apply (.attach parent index child)).IsChild first last) :
      Relation.TransGen tree.IsChild first last ∨
        Relation.ReflTransGen tree.IsChild first parent ∧
          Relation.ReflTransGen tree.IsChild child last := by
    induction way with
    | single listed =>
        rcases isChild_attach_iff.mp listed with old | ⟨rfl, rfl⟩
        · exact .inl (.single old)
        · exact .inr ⟨.refl, .refl⟩
    | tail _ listed ih =>
        rcases isChild_attach_iff.mp listed with old | ⟨rfl, rfl⟩
        · exact ih.imp (·.tail old) fun ⟨above, below⟩ => ⟨above, below.tail old⟩
        · exact .inr ⟨ih.elim (·.to_reflTransGen) And.left, .refl⟩
  intro circle
  rcases way_cases circle with old | ⟨above, below⟩
  · exact acyclic id old
  · exact apart (below.trans above)

theorem IsForest.listedOnce (h : tree.IsForest) : tree.ListedOnce :=
  ⟨h.nodup, h.one_parent⟩

/-- A forest stays one when children are taken away. -/
theorem IsForest.shrink (h : before.IsForest)
    (less : ∀ id, (after.children id).toList.Sublist (before.children id).toList) :
    after.IsForest where
  nodup := (h.listedOnce.shrink less).nodup
  one_parent := (h.listedOnce.shrink less).one_parent
  acyclic id circle := h.acyclic id
    (Relation.TransGen.mono (fun _ _ => isChild_of_sublist less) _ _ circle)
  root_free parent listed := h.root_free parent (isChild_of_sublist less listed)

/-- A forest stays one when a node is attached that is not in it yet. -/
theorem IsForest.attach (h : tree.IsForest) (not_root : child ≠ .root) (not_parent : child ≠ parent)
    (no_child : ∀ id, ¬ tree.IsChild child id) (no_parent : ∀ id, ¬ tree.IsChild id child) :
    (tree.apply (.attach parent index child)).IsForest where
  nodup := (h.listedOnce.attach no_parent).nodup
  one_parent := (h.listedOnce.attach no_parent).one_parent
  acyclic := by
    refine acyclic_attach h.acyclic fun below => ?_
    rcases below.cases_head with same | ⟨next, listed, -⟩
    · exact not_parent same
    · exact no_child next listed
  root_free other listed := by
    rcases isChild_attach_iff.mp listed with old | ⟨-, same⟩
    · exact h.root_free other old
    · exact not_root same.symm

theorem not_isChild_initial : ¬ initial.IsChild parent child := by
  have no_child : initial.children parent = #[] := by
    by_cases same : parent = .root
    · subst same
      exact children_of_get get_initial_root
    · exact children_of_none (get_initial_of_ne same)
  rw [IsChild, no_child]
  simp

theorem isForest_initial : initial.IsForest where
  nodup parent := by
    have none_listed : (initial.children parent).toList = [] :=
      List.eq_nil_iff_forall_not_mem.mpr fun child among =>
        not_isChild_initial (Array.mem_toList_iff.mp among)
    rw [none_listed]
    exact .nil
  one_parent parent other child listed := absurd listed not_isChild_initial
  acyclic id circle := by
    obtain ⟨next, listed, -⟩ := Relation.TransGen.head'_iff.mp circle
    exact not_isChild_initial listed
  root_free parent := not_isChild_initial

/-- An event either attaches a node or adds nothing below any. -/
theorem isChild_apply (event : Event)
    (listed : (tree.apply event).IsChild parent child) :
    tree.IsChild parent child ∨ ∃ index, event = .attach parent index child := by
  by_cases attaches : ∃ other index new, event = .attach other index new
  · obtain ⟨other, index, new, rfl⟩ := attaches
    rcases isChild_attach_iff.mp listed with old | ⟨rfl, rfl⟩
    · exact .inl old
    · exact .inr ⟨index, rfl⟩
  · have no_attach : ∀ other index new, event ≠ .attach other index new :=
      fun other index new same => attaches ⟨other, index, new, same⟩
    have fewer := @children_apply tree event no_attach parent
    exact .inl (Array.mem_toList_iff.mp (fewer.subset (Array.mem_toList_iff.mpr listed)))

theorem holds_of_isChild (listed : tree.IsChild parent child) : tree.Holds parent := by
  intro missing
  rw [IsChild, children_of_none missing] at listed
  simp at listed

/-- An event adds nodes of handles that it mentions only. -/
theorem holds_of_holds_apply (held : (tree.apply event).Holds id) :
    tree.Holds id ∨ id ∈ event.handles := by
  have of_update {node : NodeId} {change : DisplayNode → DisplayNode}
      (target : event.target? = some node) (held : (tree.update node change).Holds id) :
      tree.Holds id ∨ id ∈ event.handles := by
    rcases (holds_update_iff change).mp held with rfl | old
    · exact .inr (Event.mem_handles_of_target target)
    · exact .inl old
  cases event with
  | setText | setKind | setLabel => exact of_update rfl held
  | attach parent index child =>
      rcases (holds_update_iff _).mp held with rfl | held
      · exact .inr (by simp [Event.handles])
      rcases (holds_update_iff _).mp held with rfl | old
      · exact .inr (by simp [Event.handles])
      · exact .inl old
  | detach | reset => exact of_update rfl (holds_of_holds_remove held)
  | ruleEnter | ruleExit | sourceSpan | consume | rollback => exact .inl held

/-- What is below a node after some events was so before them, or one of them attaches it. -/
theorem isChild_play (listed : (tree.play events).IsChild parent child) :
    tree.IsChild parent child ∨ ∃ index, .attach parent index child ∈ events := by
  induction events generalizing tree with
  | nil => exact .inl listed
  | cons event events ih =>
      rcases ih listed with before | ⟨index, later⟩
      · rcases isChild_apply event before with old | ⟨index, rfl⟩
        · exact .inl old
        · exact .inr ⟨index, List.mem_cons_self⟩
      · exact .inr ⟨index, .tail _ later⟩

/-- A node with nothing below it stays so until an event attaches something to it. -/
theorem children_play_eq_empty (none_below : tree.children node = #[])
    (no_attach : ∀ index child, .attach node index child ∉ events) :
    (tree.play events).children node = #[] := by
  refine Array.eq_empty_iff_forall_not_mem.mpr fun child listed => ?_
  rcases isChild_play listed with old | ⟨index, attached⟩
  · rw [IsChild, none_below] at old
    simp at old
  · exact no_attach index child attached

/-- Only handles that an event mentions have children or are children. -/
theorem mentions_of_isChild (listed : (replay events).IsChild parent child) :
    Mentions events parent ∧ Mentions events child := by
  obtain ⟨index, attached⟩ := (isChild_play listed).resolve_left not_isChild_initial
  exact mentions_of_attach attached

namespace Attaching

variable {allowed : List Event → NodeId → NodeId → Prop}

theorem of_append {more : List Event} (h : Attaching allowed (events ++ more)) :
    Attaching allowed events :=
  fun earlier parent index child later split =>
    h earlier parent index child (later ++ more) (by simp [split])

/-- What holds at the start, and is kept when children are taken away and when a node is attached
where it is allowed, holds after all events. -/
theorem of_replay (property : NodeTree → Prop) (h : Attaching allowed events)
    (start : property initial)
    (attach : ∀ {events parent index child}, property (replay events) →
      allowed events parent child → property ((replay events).apply (.attach parent index child)))
    (shrink : ∀ {before after : NodeTree}, property before →
      (∀ id, (after.children id).toList.Sublist (before.children id).toList) → property after) :
    property (replay events) := by
  induction events using List.reverseRecOn with
  | nil => exact start
  | append_singleton events event ih =>
      rw [replay_concat]
      by_cases attaches : ∃ parent index child, event = .attach parent index child
      · obtain ⟨parent, index, child, rfl⟩ := attaches
        exact attach (ih h.of_append) (h events parent index child [] rfl)
      · exact shrink (ih h.of_append) (children_apply fun parent index child same =>
          attaches ⟨parent, index, child, same⟩)

end Attaching

theorem FreshlyAttached.of_append {more : List Event} (h : FreshlyAttached (events ++ more)) :
    FreshlyAttached events :=
  Attaching.of_append h

/-- If all nodes are attached before any event mentions them, the tree is a forest. -/
theorem forest_of_fresh (fresh : FreshlyAttached events) : (replay events).IsForest := by
  refine Attaching.of_replay IsForest fresh isForest_initial ?_ IsForest.shrink
  rintro events parent index child before ⟨not_root, not_parent, unseen⟩
  exact before.attach not_root not_parent
    (fun id listed => unseen (mentions_of_isChild listed).1)
    (fun id listed => unseen (mentions_of_isChild listed).2)

end

end NodeTree

end TracedGrammar

import TracedGrammar.Proofs.Display.Ascending
import TracedGrammar.Trace.WatchedTree

/-!
# Edits of a forest reach what is below their node, and nothing else

Display nodes stand side by side in one map and list their children by handle. So removal, which
takes away all that a node leads to, might reach a node that another one still lists. In a forest
it does not: whatever leads to a removed node is removed as well, or it is the node that the event
changes (`Closed.of_removed`). And as no way down comes back to where it began, the node that is
changed itself stays.

Not only a handle that no event has mentioned so far may get a node: one whose node was taken away
gets a new one if it is used again later on (`reused_handle_gets_node`). There is no third way to
come by a node (`holds_or_dropped_of_mentions`).

Observers have no influence on any of this (`WatchedTree.play_eq`). The theorem to read first is
`locality_of_replay`.
-/

namespace TracedGrammar

namespace NodeTree

/-- All listed children have nodes. -/
def Closed (tree : NodeTree) : Prop :=
  ∀ parent child, tree.IsChild parent child → tree.Holds child

/-- A tree and what is left of it when a node is reset: the node is pending, keeps its label only
and has lost all that was below it. Everything else is as it was. -/
structure Clears (before after : NodeTree) (node : NodeId) : Prop where
  self : after.get? node = some { label := before.label? node }
  gone : ∀ id, Relation.TransGen before.IsChild node id → after.get? id = none
  kept : ∀ id, id ≠ node → ¬ Relation.TransGen before.IsChild node id →
    after.get? id = before.get? id

/-- One of the events has taken the node of a handle away. -/
def Dropped (events : List Event) (id : NodeId) : Prop :=
  ∃ earlier event later, events = earlier ++ event :: later ∧
    (replay earlier).Holds id ∧ ¬ (replay (earlier ++ [event])).Holds id

end NodeTree

/-- What an event does to the nodes of a tree. Those that `reset` and `detach` take away are named
exactly; without a child to lose, `detach` changes no node. All other events leave the nodes alone
that they are not about. -/
def Event.Edits (before after : NodeTree) : Event → Prop
  | reset node => before.Clears after node
  | detach parent =>
      match (before.children parent).back? with
      | some child => before.Loses after parent child
      | none => ∀ id, before.Holds id → after.get? id = before.get? id
  | event => ∀ id, event.target? ≠ some id → before.Holds id → after.get? id = before.get? id

/-- An event edits the tree of the events before it, and the only nodes it adds are those of handles
that it mentions. If an event before has mentioned such a handle as well, then an event before has
taken its node away. -/
structure Event.Local (earlier : List Event) (event : Event) : Prop where
  edits : event.Edits (NodeTree.replay earlier) (NodeTree.replay (earlier ++ [event]))
  added : ∀ id, ¬ (NodeTree.replay earlier).Holds id →
    (NodeTree.replay (earlier ++ [event])).Holds id →
    id ∈ event.handles ∧ (Mentions earlier id → NodeTree.Dropped earlier id)

namespace NodeTree

section

variable {tree before after : NodeTree} {parent child node id : NodeId} {event : Event}
  {events : List Event}

/-- A reset node of a forest keeps its label only and loses what is below it. -/
theorem IsForest.clears (h : tree.IsForest) : tree.Clears (tree.apply (.reset node)) node := by
  have cut := cut_reset (fun child listed => Relation.TransGen.single listed)
    (fun parent (below : Relation.TransGen tree.IsChild node parent) child listed =>
      below.tail listed) (h.acyclic node)
  refine ⟨cut.self, fun id below => ?_, cut.outside⟩
  obtain ⟨child, listed, below⟩ := Relation.TransGen.head'_iff.mp below
  have apart : ¬ tree.Below child node := fun back =>
    h.acyclic node (Relation.TransGen.head' listed back)
  exact get_remove_of_below (Array.mem_toList_iff.mpr listed) (below_update_of_apart apart below)

/-- A node of a forest loses its last child with all below it, and nothing else. -/
theorem IsForest.loses (h : tree.IsForest) (last : (tree.children node).back? = some child) :
    tree.Loses (tree.apply (.detach node)) node child := by
  have listed : tree.IsChild node child := Array.mem_of_back? last
  obtain ⟨stored, at_node⟩ := Option.ne_none_iff_exists'.mp (holds_of_isChild listed)
  rw [children_of_get at_node] at last
  obtain ⟨front, children_eq⟩ := Array.back?_eq_some_iff.mp last
  have popped : tree.get? node = some { ({ stored with children := front } : DisplayNode) with
      children := front.push child } := by
    rw [at_node, ← children_eq]
  exact loses_detach_of_apart (fun back => h.acyclic node (Relation.TransGen.head' listed back))
    popped

/-- Nothing is left that lists a removed node if the nodes that did so are removed as well, all but
one, which has dropped them. -/
theorem Closed.of_removed {region : NodeId → Prop} (closed : before.Closed)
    (old : ∀ parent child, after.IsChild parent child → before.IsChild parent child)
    (held : after.Holds node) (gone : ∀ id, region id → after.get? id = none)
    (kept : ∀ id, id ≠ node → ¬ region id → after.get? id = before.get? id)
    (up : ∀ parent child, region child → before.IsChild parent child →
      parent = node ∨ region parent)
    (cleared : ∀ child, region child → ¬ after.IsChild node child) : after.Closed := by
  intro parent child listed
  by_cases same : child = node
  · exact same ▸ held
  by_cases inside : region child
  · rcases up parent child inside (old parent child listed) with rfl | above
    · exact absurd listed (cleared child inside)
    · exact absurd (gone parent above) (holds_of_isChild listed)
  · exact (holds_congr (kept child same inside)).mpr (closed parent child (old parent child listed))

/-- Children have nodes after a change as well if it takes no node away and lists none without. -/
theorem Closed.of_grown (closed : before.Closed) (held : ∀ id, before.Holds id → after.Holds id)
    (old : ∀ parent child, after.IsChild parent child →
      before.IsChild parent child ∨ after.Holds child) : after.Closed := by
  intro parent child listed
  exact (old parent child listed).elim (fun before => held child (closed parent child before)) id

theorem Closed.update (closed : tree.Closed) {change : DisplayNode → DisplayNode}
    (kept : ∀ old, (change old).children = old.children) : (tree.update node change).Closed := by
  refine closed.of_grown (fun id old => (holds_update_iff change).mpr (.inr old))
    fun parent child listed => .inl ?_
  rwa [IsChild, children_update_of_kept kept] at listed

theorem Closed.attach (closed : tree.Closed) (index : Nat) :
    (tree.apply (.attach parent index child)).Closed := by
  refine closed.of_grown (fun id old => ?_) fun other id listed => ?_
  · exact (holds_update_iff _).mpr (.inr ((holds_update_iff _).mpr (.inr old)))
  · rcases isChild_attach_iff.mp listed with old | ⟨-, rfl⟩
    · exact .inl old
    · exact .inr ((holds_update_iff _).mpr (.inr ((holds_update_iff _).mpr (.inl rfl))))

theorem Closed.reset (closed : tree.Closed) (h : tree.IsForest) :
    (tree.apply (.reset node)).Closed := by
  have clears : tree.Clears (tree.apply (.reset node)) node := h.clears
  refine closed.of_removed (fun parent child => isChild_of_sublist (children_apply (by simp)))
    (holds_of_get clears.self) clears.gone clears.kept ?_ ?_
  · intro parent child below listed
    -- what lists a removed node is its parent on the way down from the reset one
    obtain ⟨above, way, listed'⟩ := Relation.TransGen.tail'_iff.mp below
    obtain rfl := h.one_parent parent above child listed listed'
    exact way.cases_tail.imp_right fun ⟨_, way, last⟩ => Relation.TransGen.tail' way last
  · intro child _ listed
    rw [IsChild, children_reset] at listed
    simp at listed

theorem detach_of_none (none_left : (tree.children node).back? = none) :
    tree.apply (.detach node) =
      tree.update node fun old => { old with children := old.children.pop } := by
  rw [apply, none_left, Option.toList_none, remove, removeAll]

theorem Closed.detach (closed : tree.Closed) (h : tree.IsForest) :
    (tree.apply (.detach node)).Closed := by
  have old (parent child : NodeId) (listed : (tree.apply (.detach node)).IsChild parent child) :
      tree.IsChild parent child := isChild_of_sublist (children_apply (by simp)) listed
  rcases last : (tree.children node).back? with - | child
  · refine closed.of_grown (fun id held => ?_) fun parent child listed => .inl (old _ _ listed)
    rw [detach_of_none last]
    exact (holds_update_iff _).mpr (.inr held)
  have loses := h.loses last
  obtain ⟨stored, after_eq, before_eq⟩ := loses.last
  have listed : tree.IsChild node child := Array.mem_of_back? last
  refine closed.of_removed old (holds_of_get after_eq) loses.gone loses.kept ?_ ?_
  · intro parent id below listed'
    rcases below.cases_tail with rfl | ⟨above, way, listed_above⟩
    · exact .inl (h.one_parent parent node _ listed' listed)
    · exact .inr (h.one_parent parent above id listed' listed_above ▸ way)
  · intro id below still_listed
    rcases below.cases_tail with rfl | ⟨above, way, listed_above⟩
    · -- the last child is listed once only, and that entry is gone
      have nodup := h.nodup node
      rw [children_of_get before_eq, Array.toList_push, List.nodup_append] at nodup
      rw [IsChild, children_of_get after_eq, ← Array.mem_toList_iff] at still_listed
      exact nodup.2.2 _ still_listed _ List.mem_cons_self rfl
    · obtain rfl := h.one_parent above node id listed_above (old node id still_listed)
      exact h.acyclic above (Relation.TransGen.head' listed way)

/-- In a forest every event leaves nodes for all children. -/
theorem Closed.apply (closed : tree.Closed) (h : tree.IsForest) (event : Event) :
    (tree.apply event).Closed := by
  cases event with
  | setText | setKind | setLabel => exact closed.update fun _ => rfl
  | attach parent index child => exact closed.attach index
  | detach node => exact closed.detach h
  | reset node => exact closed.reset h
  | ruleEnter | ruleExit | sourceSpan | consume | rollback => exact closed

theorem closed_initial : initial.Closed :=
  fun _ _ listed => absurd listed not_isChild_initial

/-- Nothing but its target is changed by an event on a forest, apart from what it is to remove. -/
theorem IsForest.edits (h : tree.IsForest) (event : Event) :
    event.Edits tree (tree.apply event) := by
  cases event with
  | setText | setKind | setLabel =>
      intro id other _
      exact get_update_of_ne (fun same => other (congrArg some same.symm)) _
  | attach parent index child =>
      intro id other held
      have not_parent : id ≠ parent := fun same => other (congrArg some same.symm)
      rw [NodeTree.apply, get_update_of_ne not_parent]
      by_cases same : id = child
      · subst same
        obtain ⟨stored, at_child⟩ := Option.ne_none_iff_exists'.mp held
        rw [get_update_self, at_child]
        rfl
      · exact get_update_of_ne same _
  | detach node =>
      simp only [Event.Edits]
      split
      · next child last => exact h.loses last
      · next none_left =>
          intro id held
          rw [detach_of_none none_left]
          by_cases same : id = node
          · subst same
            obtain ⟨stored, at_node⟩ := Option.ne_none_iff_exists'.mp held
            rw [children_of_get at_node, Array.back?_eq_none_iff] at none_left
            rw [get_update_self, at_node, Option.getD_some, none_left, Array.pop_empty,
              ← none_left]
          · exact get_update_of_ne same _
  | reset node => exact h.clears
  | ruleEnter | ruleExit | sourceSpan | consume | rollback => exact fun _ _ _ => rfl

/-- Right after an event on a forest there are nodes of all handles that it mentions. -/
theorem IsForest.holds_of_mem_handles (h : tree.IsForest) (among : id ∈ event.handles) :
    (tree.apply event).Holds id := by
  cases event with
  | setText | setKind | setLabel =>
      obtain rfl : id = _ := by simpa [Event.handles, Event.target?] using among
      exact (holds_update_iff _).mpr (.inl rfl)
  | attach parent index child =>
      rcases List.mem_pair.mp among with rfl | rfl
      · exact (holds_update_iff _).mpr (.inl rfl)
      · exact (holds_update_iff _).mpr (.inr ((holds_update_iff _).mpr (.inl rfl)))
  | detach node =>
      obtain rfl : id = node := by simpa [Event.handles, Event.target?] using among
      rcases last : (tree.children id).back? with - | child
      · rw [detach_of_none last]
        exact (holds_update_iff _).mpr (.inl rfl)
      · obtain ⟨stored, after_eq, -⟩ := (h.loses last).last
        exact holds_of_get after_eq
  | reset node =>
      obtain rfl : id = node := by simpa [Event.handles, Event.target?] using among
      exact holds_of_get h.clears.self
  | ruleEnter | ruleExit | sourceSpan | consume | rollback =>
      simp [Event.handles, Event.target?] at among

/-- A handle has a node once it is mentioned, until the node is taken away. -/
theorem holds_or_dropped_of_mentions (fresh : FreshlyAttached events)
    (mentioned : Mentions events id) : (replay events).Holds id ∨ Dropped events id := by
  induction events using List.reverseRecOn with
  | nil => exact absurd mentioned not_mentions_nil
  | append_singleton events event ih =>
      by_cases held : (replay (events ++ [event])).Holds id
      · exact .inl held
      refine .inr ?_
      have earlier : Mentions events id := by
        refine (mentions_append_iff.mp mentioned).resolve_right fun last => held ?_
        rw [replay_concat]
        exact (forest_of_fresh fresh.of_append).holds_of_mem_handles (by simpa using last)
      rcases ih fresh.of_append earlier with before | ⟨first, removal, later, split, taken⟩
      · exact ⟨events, event, [], rfl, before, held⟩
      · exact ⟨first, removal, later ++ [event], by simp [split], taken⟩

theorem closed_of_fresh (fresh : FreshlyAttached events) : (replay events).Closed := by
  induction events using List.reverseRecOn with
  | nil => exact closed_initial
  | append_singleton events event ih =>
      rw [replay_concat]
      exact (ih fresh.of_append).apply (forest_of_fresh fresh.of_append) event

end

end NodeTree

namespace WatchedTree

variable {σ : Type}

/-- The calls that observers get for some events: one of each observer, in the order in which they
subscribed, for each event that changes a node, with the handle of that node. -/
def calls (observers : List (Observer σ)) (events : List Event) : List (σ → σ) :=
  (events.filterMap Event.target?).flatMap fun node => observers.map fun observer => observer node

/-- The surroundings after some calls. -/
def afterCalls (calls : List (σ → σ)) (surroundings : σ) : σ :=
  calls.foldl (fun surroundings call => call surroundings) surroundings

theorem apply_eq (watched : WatchedTree σ) (event : Event) (surroundings : σ) :
    watched.apply event surroundings = ({ watched with tree := watched.tree.apply event },
      afterCalls (calls watched.observers [event]) surroundings) := by
  have of_target {node : NodeId} (target : event.target? = some node) :
      watched.apply event surroundings = ({ watched with tree := watched.tree.apply event },
        afterCalls (calls watched.observers [event]) surroundings) := by
    simp [apply, target, notify, afterCalls, calls, List.foldl_map]
  cases event with
  | setText | setKind | setLabel | attach | detach | reset => exact of_target rfl
  | ruleEnter | ruleExit | sourceSpan | consume | rollback => rfl

/-- A watched tree changes as one without observers does, and they get their calls. -/
theorem play_eq (watched : WatchedTree σ) (events : List Event) (surroundings : σ) :
    watched.play events surroundings = ({ watched with tree := watched.tree.play events },
      afterCalls (calls watched.observers events) surroundings) := by
  induction events generalizing watched surroundings with
  | nil => rfl
  | cons event events ih =>
      have both : calls watched.observers (event :: events) =
          calls watched.observers [event] ++ calls watched.observers events := by
        rw [calls, calls, calls, ← List.flatMap_append, ← List.filterMap_append,
          List.singleton_append]
      show (watched.apply event surroundings).1.play events
        (watched.apply event surroundings).2 = _
      rw [apply_eq, ih, both, afterCalls, afterCalls, afterCalls, List.foldl_append]
      rfl

end WatchedTree

open NodeTree WatchedTree

/-- If all attached nodes are new, other than the root and their parent, the replayed tree is a
forest at any time, where all listed children have nodes. Each event edits it as it should, and adds
no nodes but those of handles that it mentions, if these are unseen or have lost their nodes
(`Event.Local`). Whatever observers there are at some time, the events from then on change the tree
all the same, and what is done besides is one call of each observer for each event that changes a
node. -/
theorem locality_of_replay {events : List Event} (fresh : FreshlyAttached events) :
    (∀ earlier later, events = earlier ++ later →
      (replay earlier).IsForest ∧ (replay earlier).Closed ∧
      ∀ (σ : Type) (observers : List (Observer σ)) (surroundings : σ),
        (⟨replay earlier, observers⟩ : WatchedTree σ).play later surroundings =
          (⟨replay events, observers⟩, afterCalls (calls observers later) surroundings)) ∧
    ∀ earlier event later, events = earlier ++ event :: later → event.Local earlier := by
  constructor
  · rintro earlier later rfl
    refine ⟨forest_of_fresh fresh.of_append, closed_of_fresh fresh.of_append,
      fun σ observers surroundings => ?_⟩
    rw [play_eq, replay_append]
  · rintro earlier event later rfl
    have forest := forest_of_fresh fresh.of_append
    constructor
    · rw [replay_concat]
      exact forest.edits event
    · intro id missing held
      rw [replay_concat] at held
      exact ⟨(holds_of_holds_apply held).resolve_left missing, fun mentioned =>
        (holds_or_dropped_of_mentions fresh.of_append mentioned).resolve_left missing⟩

/-- The root loses its child together with what is below this. -/
def childLost : List Event :=
  [.attach .root 0 ⟨1⟩, .attach ⟨1⟩ 0 ⟨2⟩, .detach .root]

/-- A text for the child that is lost. -/
def lateText : Event :=
  .setText ⟨1⟩ "x"

theorem fresh_with_lateText : FreshlyAttached (childLost ++ [lateText]) := by
  intro earlier parent index child later split
  rcases earlier with _ | ⟨first, _ | ⟨second, _ | ⟨third, _ | ⟨fourth, earlier⟩⟩⟩⟩ <;>
    simp only [childLost, lateText, List.nil_append, List.cons_append, List.cons.injEq,
      Event.attach.injEq, reduceCtorEq, false_and, and_false, List.nil_eq, List.append_eq_nil_iff]
      at split
  · obtain ⟨⟨rfl, rfl, rfl⟩, rfl⟩ := split
    simp [NodeId.root]
  · obtain ⟨rfl, ⟨rfl, rfl, rfl⟩, rfl⟩ := split
    simp [NodeId.root, Event.handles]

theorem mentions_childLost : Mentions childLost ⟨1⟩ := by
  simp [childLost, Event.handles]

theorem not_holds_childLost : ¬ (replay childLost).Holds ⟨1⟩ :=
  fun held => held (by cbv)

theorem holds_with_lateText : (replay (childLost ++ [lateText])).Holds ⟨1⟩ := by
  rw [replay_concat]
  exact (holds_update_iff _).mpr (.inl rfl)

/-- The text that comes late adds the node again that the `detach` has taken away. -/
theorem locality_of_reused_handle :
    FreshlyAttached (childLost ++ [lateText]) ∧ lateText.Local childLost ∧ Dropped childLost ⟨1⟩ := by
  have in_place : lateText.Local childLost :=
    (locality_of_replay fresh_with_lateText).2 _ _ [] rfl
  have added := in_place.added ⟨1⟩ not_holds_childLost holds_with_lateText
  exact ⟨fresh_with_lateText, in_place, added.2 mentions_childLost⟩

/-- A handle that an event adds a node of need not be unseen, even if all attached nodes are. -/
theorem reused_handle_gets_node :
    FreshlyAttached (childLost ++ [lateText]) ∧ Mentions childLost ⟨1⟩ ∧
      ¬ (replay childLost).Holds ⟨1⟩ ∧ (replay (childLost ++ [lateText])).Holds ⟨1⟩ :=
  ⟨fresh_with_lateText, mentions_childLost, not_holds_childLost, holds_with_lateText⟩

end TracedGrammar

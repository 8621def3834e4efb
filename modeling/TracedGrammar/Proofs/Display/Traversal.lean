import TracedGrammar.Proofs.Display.Ascending

/-!
# When rendering and counting end

Nothing keeps the events of a log from attaching a node below itself, and neither rendering nor
counting remembers where it has been. So each of them ends if and only if it does not run in a
circle, where counting follows all children and rendering those of lists and records only. That is
what the bound of `NodeTree.render?` and `NodeTree.reachable?` stands for: a way that is longer than
there are nodes comes by one of them twice (`CircleFree.shallow`).

Counting is a loop over the nodes that are waiting for it, `Visits` here. In a tree where no node is
listed twice the waiting ones never have anything below them in common, so each is visited once
(`Visits.nodup`).

The theorem to read first is `traversal_of_replay`.
-/

namespace TracedGrammar.NodeTree

/-- No way from a node on comes by the same node again. -/
def CircleFree (step : NodeId → NodeId → Prop) (start : NodeId) : Prop :=
  ∀ id, Relation.ReflTransGen step start id → ¬ Relation.TransGen step id id

/-- All ways from a node on are shorter than a depth. -/
def Shallow (step : NodeId → NodeId → Prop) : (depth : Nat) → NodeId → Prop
  | 0, _ => False
  | depth + 1, id => ∀ next, step id next → Shallow step depth next

/-- A node is rendered with its children, and another one is among these. -/
def Unfolds (tree : NodeTree) (parent child : NodeId) : Prop :=
  ∃ node, tree.get? parent = some node ∧ (brackets? node).isSome ∧ child ∈ node.children

/-- The loop that counts nodes. It takes the first of those that are waiting and lets its children
wait in front of the others, the last child first. Handles without a node are passed over. -/
inductive Visits (tree : NodeTree) : (waiting visited : List NodeId) → Prop where
  | done : Visits tree [] []
  | missing {id : NodeId} {waiting visited : List NodeId} (no_node : tree.get? id = none)
      (rest : Visits tree waiting visited) : Visits tree (id :: waiting) visited
  | stored {id : NodeId} {node : DisplayNode} {waiting visited : List NodeId}
      (at_id : tree.get? id = some node)
      (rest : Visits tree (node.children.toList.reverse ++ waiting) visited) :
      Visits tree (id :: waiting) (id :: visited)

/-- The loop gets done with a node if it does so with the others that are waiting, and it visits as
many nodes for it as are counted. -/
def Counted (tree : NodeTree) (depth : Nat) (id : NodeId) : Prop :=
  ∀ waiting visited, tree.Visits waiting visited → ∃ seen,
    tree.Visits (id :: waiting) (seen ++ visited) ∧ tree.countFrom? depth id = some seen.length

/-- Two nodes lead to none in common. -/
def Apart (tree : NodeTree) (first second : NodeId) : Prop :=
  ∀ id, tree.Below first id → ¬ tree.Below second id

/-- No node is attached to itself or to one that is below it. -/
def Uncircled : List Event → Prop :=
  Attaching fun earlier parent child => ¬ (replay earlier).Below child parent

/-- No node is attached that some node lists already. -/
def AttachedOnce : List Event → Prop :=
  Attaching fun earlier _ child => ∀ id, ¬ (replay earlier).IsChild id child

section

variable {step : NodeId → NodeId → Prop} {depth : Nat} {start : NodeId}

theorem circleFree_of_next (h : ∀ next, step start next → CircleFree step next) :
    CircleFree step start := by
  intro id way circle
  obtain ⟨next, first, rest⟩ :=
    Relation.TransGen.head'_iff.mp (Relation.TransGen.trans_right way circle)
  exact h next first id rest circle

theorem Shallow.circleFree (h : Shallow step depth start) : CircleFree step start := by
  induction depth generalizing start with
  | zero => exact h.elim
  | succ depth ih => exact circleFree_of_next fun next first => ih (h next first)

end

section

variable {tree : NodeTree} {step : NodeId → NodeId → Prop} {depth level : Nat}
  {start id node : NodeId} {waiting visited : List NodeId}

/-- There are no more handles with nodes than there are nodes. -/
theorem length_le_size {path : List NodeId} (nodup : path.Nodup)
    (held : ∀ id ∈ path, tree.Holds id) : path.length ≤ tree.size := by
  have nodup_indices : (path.map NodeId.index).Nodup :=
    nodup.map_on fun first _ second _ same => by cases first; cases second; cases same; rfl
  have keys : path.map NodeId.index ⊆ tree.nodes.keys := by
    intro index among
    obtain ⟨id, on_path, rfl⟩ := List.mem_map.mp among
    rw [Std.TreeMap.mem_keys, Std.TreeMap.mem_iff_isSome_getElem?]
    exact Option.isSome_iff_ne_none.mpr (held id on_path)
  have length_le := (List.subperm_of_subset nodup_indices keys).length_le
  rwa [List.length_map, Std.TreeMap.length_keys] at length_le

/-- Without circles no way is longer than there are nodes. -/
theorem CircleFree.shallow (held : ∀ id next, step id next → tree.Holds id)
    (free : CircleFree step start) : Shallow step (tree.size + 1) start := by
  -- the nodes that were passed on the way are distinct, so they leave only so many others
  have onward (depth : Nat) (path : List NodeId) (nodup : path.Nodup)
      (on_path : ∀ passed ∈ path, tree.Holds passed) (id : NodeId)
      (reached : Relation.ReflTransGen step start id)
      (way : ∀ passed ∈ path, Relation.TransGen step passed id)
      (enough : tree.size < depth + path.length) : Shallow step depth id := by
    induction depth generalizing path id with
    | zero =>
        have := length_le_size nodup on_path
        omega
    | succ depth ih =>
        intro next first
        have new : id ∉ path := fun again => free id reached (way id again)
        refine ih (id :: path) (List.nodup_cons.mpr ⟨new, nodup⟩) ?_ next (reached.tail first) ?_
          (by rw [List.length_cons]; omega)
        · exact List.forall_mem_cons.mpr ⟨held id next first, on_path⟩
        · exact List.forall_mem_cons.mpr ⟨.single first, fun passed among =>
            (way passed among).tail first⟩
  exact onward _ [] .nil (by simp) start .refl (by simp) (by simp)

theorem shallow_iff_circleFree (held : ∀ id next, step id next → tree.Holds id) :
    Shallow step (tree.size + 1) start ↔ CircleFree step start :=
  ⟨Shallow.circleFree, CircleFree.shallow held⟩

/-- Work on children, one after the other, succeeds if it does so on each of them. -/
theorem exists_foldlM_iff {σ : Type} {good : NodeId → Prop} {work : σ → NodeId → Option σ}
    (children : List NodeId)
    (each : ∀ child ∈ children, ∀ state, (∃ after, work state child = some after) ↔ good child)
    (state : σ) :
    (∃ after, children.foldlM work state = some after) ↔ ∀ child ∈ children, good child := by
  induction children generalizing state with
  | nil => simp
  | cons child children ih =>
      have rest := ih fun other among => each other (.tail _ among)
      rw [List.foldlM_cons, List.forall_mem_cons, ← each child List.mem_cons_self state]
      cases work state child with
      | none => simp
      | some middle => simpa using rest middle

theorem exists_return_iff {α β : Type} {work : Option α} {finish : α → β} :
    (∃ after, (do return finish (← work)) = some after) ↔ ∃ before, work = some before := by
  cases work <;> simp

theorem unfolds_iff_of_get {stored : DisplayNode} {child : NodeId}
    (at_id : tree.get? id = some stored) :
    tree.Unfolds id child ↔ (brackets? stored).isSome ∧ child ∈ stored.children.toList := by
  simp [Unfolds, at_id]

theorem renderNode_iff_shallow {shown : String} :
    (∃ text, tree.renderNode? depth level id shown = some text) ↔
      Shallow tree.Unfolds depth id := by
  induction depth generalizing level id shown with
  | zero => simp [renderNode?, Shallow]
  | succ depth ih =>
      rw [renderNode?, Shallow]
      rcases at_id : tree.get? id with - | node
      · simp [Unfolds, at_id]
      simp only [unfolds_iff_of_get at_id]
      rcases has_brackets : brackets? node with - | ⟨opening, closing⟩
      · simp
      by_cases no_children : node.children.isEmpty
      · simp [Array.isEmpty_iff.mp no_children]
      · simp only [Option.isSome_some, true_and, if_neg no_children]
        refine exists_return_iff.trans (exists_foldlM_iff _ (fun child _ shown => ?_) _)
        exact exists_return_iff.trans ih

theorem render_iff_circleFree :
    (∃ text, tree.render? = some text) ↔ CircleFree tree.Unfolds .root :=
  renderNode_iff_shallow.trans <| shallow_iff_circleFree fun _ _ ⟨_, at_id, _⟩ => holds_of_get at_id

namespace Visits

theorem circleFree (h : tree.Visits waiting visited) :
    ∀ id ∈ waiting, CircleFree tree.IsChild id := by
  induction h with
  | done => simp
  | missing no_node _ ih =>
      refine List.forall_mem_cons.mpr ⟨circleFree_of_next fun next listed => ?_, ih⟩
      exact absurd no_node (holds_of_isChild listed)
  | stored at_id _ ih =>
      obtain ⟨children, waiting⟩ := List.forall_mem_append.mp ih
      refine List.forall_mem_cons.mpr ⟨circleFree_of_next fun next listed => ?_, waiting⟩
      rw [IsChild, children_of_get at_id] at listed
      exact children next (by simpa using listed)

theorem unique {other : List NodeId} (h : tree.Visits waiting visited)
    (h' : tree.Visits waiting other) : visited = other := by
  induction h generalizing other with
  | done => cases h'; rfl
  | missing no_node _ ih =>
      cases h' with
      | missing _ rest => exact ih rest
      | stored at_id _ => rw [no_node] at at_id; cases at_id
  | stored at_id _ ih =>
      cases h' with
      | missing no_node _ => rw [no_node] at at_id; cases at_id
      | stored at_id' rest =>
          obtain rfl := Option.some.inj (at_id.symm.trans at_id')
          rw [ih rest]

/-- The loop visits what the waiting nodes lead to. -/
theorem mem_iff (h : tree.Visits waiting visited) :
    id ∈ visited ↔ tree.Holds id ∧ ∃ start ∈ waiting, tree.Below start id := by
  induction h with
  | done => simp
  | @missing start waiting visited no_node _ ih =>
      rw [ih, List.exists_mem_cons_iff]
      refine and_congr_right fun held => ⟨.inr, fun found => found.resolve_left fun below => ?_⟩
      rcases below.cases_head with rfl | ⟨next, listed, -⟩
      · exact held no_node
      · exact holds_of_isChild listed no_node
  | @stored start node waiting visited at_start _ ih =>
      have head : tree.Below start id ↔
          id = start ∨ ∃ child ∈ node.children.toList.reverse, tree.Below child id := by
        rw [Below, Relation.ReflTransGen.cases_head_iff]
        simp [IsChild, children_of_get at_start, eq_comm]
      rw [List.mem_cons, ih, List.exists_mem_cons_iff, head]
      simp only [List.mem_append, or_and_right, exists_or]
      have held : tree.Holds start := holds_of_get at_start
      constructor
      · rintro (rfl | ⟨held, found⟩)
        · exact ⟨held, .inl (.inl rfl)⟩
        · exact ⟨held, found.imp_left .inr⟩
      · rintro ⟨held, (rfl | found) | found⟩
        · exact .inl rfl
        · exact .inr ⟨held, .inl found⟩
        · exact .inr ⟨held, .inr found⟩

end Visits

/-- The loop goes through children from the last to the first, but counts as many. -/
theorem Counted.children {children : List NodeId}
    (each : ∀ child ∈ children, tree.Counted depth child) (rest : tree.Visits waiting visited)
    (count : Nat) :
    ∃ seen, tree.Visits (children.reverse ++ waiting) (seen ++ visited) ∧
      children.foldlM (fun count child => do return count + (← tree.countFrom? depth child)) count =
        some (count + seen.length) := by
  induction children generalizing waiting visited count with
  | nil => exact ⟨[], rest, rfl⟩
  | cons child children ih =>
      obtain ⟨seen, visits, counted⟩ := each child List.mem_cons_self waiting visited rest
      obtain ⟨others, visits_all, counted_all⟩ :=
        ih (fun other among => each other (.tail _ among)) visits (count + seen.length)
      refine ⟨others ++ seen, by simpa using visits_all, ?_⟩
      rw [List.foldlM_cons, counted]
      simpa [Nat.add_comm, Nat.add_left_comm, Nat.add_assoc] using counted_all

theorem Shallow.counted (h : Shallow tree.IsChild depth id) : tree.Counted depth id := by
  induction depth generalizing id with
  | zero => exact h.elim
  | succ depth ih =>
      intro waiting visited rest
      rw [countFrom?]
      rcases at_id : tree.get? id with - | node
      · exact ⟨[], .missing at_id rest, rfl⟩
      have each (child : NodeId) (among : child ∈ node.children.toList) :
          tree.Counted depth child := by
        refine ih (h child ?_)
        rwa [IsChild, children_of_get at_id, ← Array.mem_toList_iff]
      obtain ⟨seen, visits, counted⟩ := Counted.children each rest 1
      refine ⟨id :: seen, .stored at_id visits, ?_⟩
      rw [List.length_cons, Nat.add_comm]
      exact counted

theorem exists_visits_of_circleFree (free : CircleFree tree.IsChild .root) :
    ∃ visited, tree.Visits [.root] visited ∧ tree.reachable? = some visited.length := by
  have shallow := free.shallow fun _ _ => holds_of_isChild
  obtain ⟨seen, visits, counted⟩ := shallow.counted [] [] .done
  rw [List.append_nil] at visits
  exact ⟨seen, visits, counted⟩

theorem exists_visits_iff_circleFree :
    (∃ visited, tree.Visits [.root] visited) ↔ CircleFree tree.IsChild .root := by
  constructor
  · rintro ⟨visited, visits⟩
    exact visits.circleFree .root List.mem_cons_self
  · intro free
    obtain ⟨visited, visits, -⟩ := exists_visits_of_circleFree free
    exact ⟨visited, visits⟩

theorem Visits.reachable (h : tree.Visits [.root] visited) :
    tree.reachable? = some visited.length := by
  obtain ⟨seen, visits, counted⟩ :=
    exists_visits_of_circleFree (h.circleFree .root List.mem_cons_self)
  rw [h.unique visits, counted]

/-- Where no node is listed twice, the ways to a node from above are parts of one. -/
theorem ListedOnce.below_or_below (h : tree.ListedOnce) {first second : NodeId}
    (below : tree.Below first id) (below' : tree.Below second id) :
    tree.Below first second ∨ tree.Below second first := by
  have one_way_up : Relator.RightUnique (Function.swap tree.IsChild) :=
    fun child parent other listed listed' => h.one_parent parent other child listed listed'
  have up := Relation.ReflTransGen.total_of_right_unique one_way_up
    (Relation.reflTransGen_swap.mpr below) (Relation.reflTransGen_swap.mpr below')
  exact up.symm.imp Relation.reflTransGen_swap.mp Relation.reflTransGen_swap.mp

theorem ListedOnce.apart_of_isChild (h : tree.ListedOnce) (free : CircleFree tree.IsChild node)
    {first second : NodeId} (listed : tree.IsChild node first) (listed' : tree.IsChild node second)
    (distinct : first ≠ second) : tree.Apart first second := by
  -- a way from one child to another would come by their parent
  have not_below {first second : NodeId} (listed : tree.IsChild node first)
      (listed' : tree.IsChild node second) (distinct : first ≠ second) :
      ¬ tree.Below first second := by
    intro below
    rcases below.cases_tail with same | ⟨parent, way, last⟩
    · exact distinct same.symm
    · obtain rfl := h.one_parent parent node second last listed'
      exact free parent .refl (Relation.TransGen.head' listed way)
  intro id below below'
  rcases h.below_or_below below below' with way | way
  · exact not_below listed listed' distinct way
  · exact not_below listed' listed distinct.symm way

/-- Where no node is listed twice, the loop visits none twice. -/
theorem Visits.nodup (h : tree.Visits waiting visited) (once : tree.ListedOnce)
    (apart : waiting.Pairwise tree.Apart) : visited.Nodup := by
  have free := h.circleFree
  induction h with
  | done => exact .nil
  | missing _ rest ih => exact ih (List.pairwise_cons.mp apart).2 rest.circleFree
  | @stored id node waiting visited at_id rest ih =>
      obtain ⟨apart_id, apart_waiting⟩ := List.pairwise_cons.mp apart
      have listed {child : NodeId} (among : child ∈ node.children.toList.reverse) :
          tree.IsChild id child := by
        rw [IsChild, children_of_get at_id]
        simpa using among
      refine List.nodup_cons.mpr ⟨fun again => ?_, ih ?_ rest.circleFree⟩
      · obtain ⟨-, start, among, below⟩ := rest.mem_iff.mp again
        rcases List.mem_append.mp among with child | waits
        · exact free id List.mem_cons_self id .refl (Relation.TransGen.head' (listed child) below)
        · exact apart_id start waits id .refl below
      · refine List.pairwise_append.mpr ⟨?_, apart_waiting, fun child among other waits below => ?_⟩
        · have nodup : node.children.toList.reverse.Nodup := by
            rw [List.nodup_reverse, ← children_of_get at_id]
            exact once.nodup id
          exact nodup.imp_of_mem fun first second distinct =>
            once.apart_of_isChild (free id List.mem_cons_self) (listed first) (listed second)
              distinct
        · intro way
          exact apart_id other waits below (.head (listed among) way)

end

theorem Uncircled.acyclic {events : List Event} (h : Uncircled events) :
    ∀ id, ¬ Relation.TransGen (replay events).IsChild id id :=
  Attaching.of_replay (fun tree => ∀ id, ¬ Relation.TransGen tree.IsChild id id) h
    isForest_initial.acyclic acyclic_attach fun acyclic less id circle =>
      acyclic id (Relation.TransGen.mono (fun _ _ => isChild_of_sublist less) _ _ circle)

theorem AttachedOnce.listedOnce {events : List Event} (h : AttachedOnce events) :
    (replay events).ListedOnce :=
  Attaching.of_replay ListedOnce h isForest_initial.listedOnce ListedOnce.attach ListedOnce.shrink

theorem uncircled_of_fresh {events : List Event} (fresh : FreshlyAttached events) :
    Uncircled events := by
  intro earlier parent index child later split below
  obtain ⟨-, not_parent, unseen⟩ := fresh earlier parent index child later split
  rcases below.cases_head with same | ⟨next, listed, -⟩
  · exact not_parent same
  · exact unseen (mentions_of_isChild listed).1

theorem attachedOnce_of_fresh {events : List Event} (fresh : FreshlyAttached events) :
    AttachedOnce events :=
  fun earlier parent index child later split _ listed =>
    (fresh earlier parent index child later split).2.2 (mentions_of_isChild listed).2

/-- After any events, counting ends if and only if no node that the root leads to is below itself.
Rendering ends at some depth if and only if this is so of the nodes that are shown, and then it does
at the depth that `NodeTree.render?` allows. Where counting ends it visits the nodes that the root
leads to, and no others. If no event attaches a node to itself or to one below it, both come to an
end, and if none attaches a node that is listed already, each node is visited once. -/
theorem traversal_of_replay (events : List Event) :
    ((∃ visited, (replay events).Visits [.root] visited) ↔
      CircleFree (replay events).IsChild .root) ∧
    ((∃ depth text, (replay events).renderNode? depth 0 .root "" = some text) ↔
      CircleFree (replay events).Unfolds .root) ∧
    ((∃ text, (replay events).render? = some text) ↔ CircleFree (replay events).Unfolds .root) ∧
    (∀ visited, (replay events).Visits [.root] visited →
      (replay events).reachable? = some visited.length ∧
      (∀ id, id ∈ visited ↔ (replay events).Holds id ∧ (replay events).Below .root id) ∧
      (AttachedOnce events → visited.Nodup)) ∧
    (Uncircled events → CircleFree (replay events).IsChild .root ∧
      (∃ text, (replay events).render? = some text) ∧
      ∃ visited, (replay events).Visits [.root] visited) := by
  refine ⟨exists_visits_iff_circleFree, ⟨?_, fun free => ⟨_, render_iff_circleFree.mpr free⟩⟩,
    render_iff_circleFree, fun visited visits => ?_, fun uncircled => ?_⟩
  · rintro ⟨depth, shown⟩
    exact (renderNode_iff_shallow.mp shown).circleFree
  · refine ⟨visits.reachable, fun id => ?_, fun once => ?_⟩
    · simpa using visits.mem_iff
    · exact visits.nodup once.listedOnce (List.pairwise_singleton _ _)
  · have acyclic := uncircled.acyclic
    have shown_listed (parent child : NodeId) (unfolds : (replay events).Unfolds parent child) :
        (replay events).IsChild parent child := by
      obtain ⟨node, at_parent, -, among⟩ := unfolds
      rwa [IsChild, children_of_get at_parent]
    refine ⟨fun id _ => acyclic id, render_iff_circleFree.mpr fun id _ circle => ?_,
      exists_visits_iff_circleFree.mpr fun id _ => acyclic id⟩
    exact acyclic id (Relation.TransGen.mono shown_listed _ _ circle)

/-- A node that is attached to itself makes counting and rendering run in a circle, whatever depth
they are given. A node that is attached twice is visited twice, and counted as often. -/
theorem traversal_in_circles_or_twice :
    ((replay [.setKind .root .list, .attach .root 0 .root]).IsChild .root .root ∧
      (¬ ∃ visited, (replay [.setKind .root .list, .attach .root 0 .root]).Visits [.root] visited) ∧
      ∀ depth, (replay [.setKind .root .list, .attach .root 0 .root]).renderNode? depth 0 .root ""
        = none) ∧
    (replay [.attach .root 0 ⟨1⟩, .attach .root 1 ⟨1⟩]).Visits [.root] [.root, ⟨1⟩, ⟨1⟩] ∧
    (replay [.attach .root 0 ⟨1⟩, .attach .root 1 ⟨1⟩]).reachable? = some 3 := by
  constructor
  · have at_root : (replay [.setKind .root .list, .attach .root 0 .root]).get? .root =
        some { kind := .list, children := #[.root] } := by cbv
    have listed : (replay [.setKind .root .list, .attach .root 0 .root]).IsChild .root .root := by
      simp [IsChild, children_of_get at_root]
    refine ⟨listed, fun ends => ?_, fun depth => ?_⟩
    · exact exists_visits_iff_circleFree.mp ends .root .refl (.single listed)
    · refine Option.eq_none_iff_forall_ne_some.mpr fun text shown => ?_
      have unfolds : (replay [.setKind .root .list, .attach .root 0 .root]).Unfolds .root .root :=
        (unfolds_iff_of_get at_root).mpr (by simp [brackets?])
      exact (renderNode_iff_shallow.mp ⟨text, shown⟩).circleFree .root .refl (.single unfolds)
  · have at_root : (replay [.attach .root 0 ⟨1⟩, .attach .root 1 ⟨1⟩]).get? .root =
        some { children := #[⟨1⟩, ⟨1⟩] } := by cbv
    have at_child : (replay [.attach .root 0 ⟨1⟩, .attach .root 1 ⟨1⟩]).get? ⟨1⟩ = some {} := by
      cbv
    have visits : (replay [.attach .root 0 ⟨1⟩, .attach .root 1 ⟨1⟩]).Visits [.root]
        [.root, ⟨1⟩, ⟨1⟩] := .stored at_root (.stored at_child (.stored at_child .done))
    exact ⟨visits, visits.reachable⟩

/-- A list is rendered, and its node and its element are visited once each. -/
theorem traversal_of_short_list :
    Uncircled [.setKind .root .list, .attach .root 0 ⟨1⟩] ∧
      AttachedOnce [.setKind .root .list, .attach .root 0 ⟨1⟩] ∧
      (∃ text, (replay [.setKind .root .list, .attach .root 0 ⟨1⟩]).render? = some text) ∧
      ∃ visited, (replay [.setKind .root .list, .attach .root 0 ⟨1⟩]).Visits [.root] visited ∧
        visited.Nodup := by
  have fresh : FreshlyAttached [.setKind .root .list, .attach .root 0 ⟨1⟩] := by
    intro earlier parent index child later split
    rcases earlier with _ | ⟨first, _ | ⟨second, earlier⟩⟩ <;>
      simp only [List.nil_append, List.cons_append, List.cons.injEq, Event.attach.injEq,
        reduceCtorEq, false_and, and_false, List.nil_eq, List.append_eq_nil_iff] at split
    obtain ⟨rfl, ⟨rfl, rfl, rfl⟩, rfl⟩ := split
    simp [NodeId.root, Event.handles, Event.target?]
  obtain ⟨-, -, -, when_ended, when_uncircled⟩ :=
    traversal_of_replay [.setKind .root .list, .attach .root 0 ⟨1⟩]
  obtain ⟨-, shown, visited, visits⟩ := when_uncircled (uncircled_of_fresh fresh)
  exact ⟨uncircled_of_fresh fresh, attachedOnce_of_fresh fresh, shown, visited, visits,
    (when_ended visited visits).2.2 (attachedOnce_of_fresh fresh)⟩

end TracedGrammar.NodeTree

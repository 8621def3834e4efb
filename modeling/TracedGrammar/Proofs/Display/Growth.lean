import TracedGrammar.Proofs.Display.Decode

/-!
# How a display tree grows

A task works on nodes of its own and on nodes with handles that were given out in the meantime.
`Grows before after own low high` says so of the tree before and after it, where `low` handles had
been given out before and `high` have been by then: everything else is as it was, below its own
nodes there are new ones only, and children have higher handles than their parents. Such steps
compose (`Grows.trans`), which is how the frame of a task follows from those of its pieces.
-/

namespace TracedGrammar.NodeTree

/-- As long as the counter of handles has not started over, a handle is the number of those given
out by then. -/
theorem index_afterCount {count : Nat} (bounded : count + 1 < UInt32.size) :
    (NodeId.afterCount count).index = count + 1 :=
  Nat.mod_eq_of_lt bounded

theorem next_handles_succ (count number : Nat) :
    NodeId.nextHandles count (number + 1) =
      .afterCount count :: NodeId.nextHandles (count + 1) number := by
  rw [NodeId.nextHandles, List.range'_succ, List.map_cons, NodeId.nextHandles]

/-- The nodes of the named parts of a sequence, with the names. -/
def namedNodes (fields : List (Option String)) (nodes : List NodeId) : List (String × NodeId) :=
  (fields.zip nodes).filterMap fun part => part.1.map (·, part.2)

@[simp] theorem named_nodes_none (fields : List (Option String)) (node : NodeId)
    (nodes : List NodeId) : namedNodes (none :: fields) (node :: nodes) = namedNodes fields nodes :=
  rfl

@[simp] theorem named_nodes_some (label : String) (fields : List (Option String)) (node : NodeId)
    (nodes : List NodeId) :
    namedNodes (some label :: fields) (node :: nodes) =
      (label, node) :: namedNodes fields nodes :=
  rfl

theorem named_nodes_append {fields : List (Option String)} {nodes : List NodeId}
    (fits : fields.length = nodes.length) (field : Option String) (node : NodeId) :
    namedNodes (fields ++ [field]) (nodes ++ [node]) =
      namedNodes fields nodes ++ (field.map (·, node)).toList := by
  rw [namedNodes, List.zip_append fits, List.filterMap_append, namedNodes]
  cases field <;> rfl

theorem map_named_nodes {fields : List (Option String)} {nodes : List NodeId}
    (fits : fields.length = nodes.length) :
    (namedNodes fields nodes).map (·.1) = fields.filterMap id := by
  induction fields generalizing nodes with
  | nil => rfl
  | cons field fields ih =>
      obtain ⟨node, nodes, rfl⟩ : ∃ node rest, nodes = node :: rest :=
        List.exists_cons_of_length_eq_add_one fits.symm
      have rest := ih (Nat.succ.inj fits)
      cases field with
      | none => exact rest
      | some label => exact congrArg (label :: ·) rest

theorem mem_of_named {fields : List (Option String)} {nodes : List NodeId}
    {child : String × NodeId} (h : child ∈ namedNodes fields nodes) : child.2 ∈ nodes := by
  obtain ⟨part, among, named⟩ := List.mem_filterMap.mp h
  obtain ⟨label, -, rfl⟩ := Option.map_eq_some_iff.mp named
  exact (List.of_mem_zip among).2

theorem mem_next_handles {count number : Nat} {id : NodeId}
    (bounded : count + number < UInt32.size) (h : id ∈ NodeId.nextHandles count number) :
    count < id.index ∧ id.index ≤ count + number := by
  obtain ⟨earlier, among, rfl⟩ := List.mem_map.mp h
  rw [List.mem_range'_1] at among
  rw [index_afterCount (by omega)]
  omega

theorem nodup_next_handles {count number : Nat} (bounded : count + number < UInt32.size) :
    (NodeId.nextHandles count number).Nodup := by
  induction number generalizing count with
  | zero => exact .nil
  | succ number ih =>
      rw [next_handles_succ]
      refine List.nodup_cons.mpr ⟨fun among => ?_, ih (by omega)⟩
      have later := (mem_next_handles (by omega) among).1
      rw [index_afterCount (by omega)] at later
      exact Nat.lt_irrefl _ later

/-- No node has a handle that has not been given out yet. -/
def Fresh (tree : NodeTree) (count : Nat) : Prop :=
  ∀ id : NodeId, count < id.index → tree.get? id = none

/-- Nodes with handles that have been given out, and with nothing below them. -/
def Clean (tree : NodeTree) (own : List NodeId) (count : Nat) : Prop :=
  ∀ id ∈ own, id.index ≤ count ∧ tree.children id = #[]

/-- The change of a tree by a task; see the head of the module. -/
structure Grows (before after : NodeTree) (own : List NodeId) (low high : Nat) : Prop where
  le : low ≤ high
  own_le : ∀ id ∈ own, id.index ≤ low
  fresh : after.Fresh high
  outside : ∀ id, id ∉ own → id.index ≤ low → after.get? id = before.get? id
  inside : ∀ id, id ∈ own ∨ low < id.index → ∀ child ∈ after.children id,
    id.index < child.index ∧ low < child.index ∧ child.index ≤ high
  labels : ∀ id ∈ own, after.label? id = before.label? id

section

variable {before middle after tree : NodeTree} {own own' : List NodeId} {low mid high : Nat}
  {node : NodeId}

theorem label_congr {id : NodeId} (h : after.get? id = before.get? id) :
    after.label? id = before.label? id := by
  rw [label?, label?, h]

theorem Fresh.children_eq {count : Nat} {id : NodeId} (h : tree.Fresh count)
    (new : count < id.index) : tree.children id = #[] :=
  children_of_none (h id new)

theorem Fresh.mono (h : tree.Fresh low) (le : low ≤ high) : tree.Fresh high :=
  fun id new => h id (Nat.lt_of_le_of_lt le new)

/-- Giving out handles changes nothing. -/
theorem Grows.refl (fresh : tree.Fresh low) (clean : tree.Clean own low) (le : low ≤ high) :
    Grows tree tree own low high where
  le := le
  own_le id among := (clean id among).1
  fresh := fresh.mono le
  outside _ _ _ := rfl
  inside id within child among := by
    have none_below : tree.children id = #[] := by
      rcases within with owned | new
      · exact (clean id owned).2
      · exact fresh.children_eq new
    rw [none_below] at among
    simp at among
  labels _ _ := rfl

/-- A later change may be to nodes that the earlier one owned or made. -/
theorem Grows.trans (h : Grows before middle own low mid) (h' : Grows middle after own' mid high)
    (sub : ∀ id ∈ own', id ∈ own ∨ low < id.index) : Grows before after own low high where
  le := h.le.trans h'.le
  own_le := h.own_le
  fresh := h'.fresh
  outside id foreign old := by
    have foreign' : id ∉ own' := fun owned => (sub id owned).elim foreign (by omega)
    rw [h'.outside id foreign' (old.trans h.le), h.outside id foreign old]
  inside id within child among := by
    -- below a node of the later change are children that it made or left there
    by_cases later : id ∈ own' ∨ mid < id.index
    · obtain ⟨up, new, below⟩ := h'.inside id later child among
      exact ⟨up, Nat.lt_of_le_of_lt h.le new, below⟩
    · rw [not_or, Nat.not_lt] at later
      rw [children_congr (h'.outside id later.1 later.2)] at among
      obtain ⟨up, new, below⟩ := h.inside id within child among
      exact ⟨up, new, below.trans h'.le⟩
  labels id owned := by
    by_cases later : id ∈ own'
    · rw [h'.labels id later, h.labels id owned]
    · rw [label_congr (h'.outside id later ((h.own_le id owned).trans h.le)), h.labels id owned]

/-- Further nodes with nothing below them may be counted as a task's own. -/
theorem Grows.widen (h : Grows before after own low high) (clean : before.Clean own' low)
    (sub : ∀ id ∈ own, id ∈ own') : Grows before after own' low high where
  le := h.le
  own_le id among := (clean id among).1
  fresh := h.fresh
  outside id foreign := h.outside id fun owned => foreign (sub id owned)
  inside id within child among := by
    by_cases owned : id ∈ own ∨ low < id.index
    · exact h.inside id owned child among
    · rw [not_or, Nat.not_lt] at owned
      have clean_id := (clean id (within.resolve_right (by omega))).2
      rw [children_congr (h.outside id owned.1 owned.2), clean_id] at among
      simp at among
  labels id owned := by
    by_cases among : id ∈ own
    · exact h.labels id among
    · exact label_congr (h.outside id among (clean id owned).1)

/-- Handles may be given out without being used. -/
theorem Grows.more (h : Grows before after own low mid) (le : mid ≤ high) :
    Grows before after own low high where
  le := h.le.trans le
  own_le := h.own_le
  fresh := h.fresh.mono le
  outside := h.outside
  inside id within child among := by
    obtain ⟨up, new, below⟩ := h.inside id within child among
    exact ⟨up, new, below.trans le⟩
  labels := h.labels

/-- A change to a task's own nodes that adds nothing below any node. -/
theorem Grows.shrink (h : Grows before middle own low high)
    (outside : ∀ id, id ∉ own → id.index ≤ low → after.get? id = middle.get? id)
    (fresh : after.Fresh high)
    (less : ∀ id, ∀ child ∈ after.children id, child ∈ middle.children id)
    (labels : ∀ id ∈ own, after.label? id = middle.label? id) :
    Grows before after own low high where
  le := h.le
  own_le := h.own_le
  fresh := fresh
  outside id foreign old := (outside id foreign old).trans (h.outside id foreign old)
  inside id within child among := h.inside id within child (less id child among)
  labels id owned := (labels id owned).trans (h.labels id owned)

/-- Showing a text and a kind on an own node. -/
theorem Grows.shows (h : Grows before middle own low high) (owned : node ∈ own) (text : String)
    (kind : NodeKind) : Grows before (middle.play (Event.shows node text kind)) own low high := by
  have same_children : ∀ id, (middle.play (Event.shows node text kind)).children id =
      middle.children id := by
    intro id
    by_cases same : id = node
    · subst same
      rw [children_of_get (play_shows_self text kind), children]
      cases middle.get? id <;> rfl
    · exact children_congr (play_shows_of_ne same text kind)
  refine h.shrink ?_ ?_ ?_ ?_
  · intro id foreign _
    exact play_shows_of_ne (fun (same : id = node) => foreign (same ▸ owned)) text kind
  · intro id new
    have other : id ≠ node := by
      rintro rfl
      exact absurd ((h.own_le id owned).trans h.le) (by omega)
    rw [play_shows_of_ne other, h.fresh id new]
  · intro id child among
    rwa [same_children] at among
  · intro id _
    by_cases same : id = node
    · subst same
      rw [label?, label?, play_shows_self]
      cases middle.get? id <;> rfl
    · exact label_congr (play_shows_of_ne same text kind)

/-- A cut takes away what a task made. -/
theorem Grows.cut {region : NodeId → Prop} {changed : DisplayNode}
    (h : Grows before middle own low high) (owned : node ∈ own)
    (cut : Cut middle after region node changed) (new : ∀ id, region id → low < id.index)
    (less : ∀ child ∈ changed.children, child ∈ middle.children node)
    (label_eq : changed.label = middle.label? node) : Grows before after own low high := by
  have stored := cut.self
  refine h.shrink ?_ ?_ ?_ ?_
  · intro id foreign old
    refine cut.outside id (fun same => foreign (same ▸ owned)) fun inside => ?_
    exact absurd (new id inside) (by omega)
  · intro id beyond
    have other : id ≠ node := by
      rintro rfl
      exact absurd ((h.own_le id owned).trans h.le) (by omega)
    rcases cut.less id other with gone | kept
    · exact gone
    · rw [kept, h.fresh id beyond]
  · intro id child among
    by_cases same : id = node
    · subst same
      rw [children_of_get stored] at among
      exact less child among
    · rcases cut.less id same with gone | kept
      · rw [children_of_none gone] at among
        simp at among
      · rwa [children_congr kept] at among
  · intro id among
    by_cases same : id = node
    · subst same
      rw [label?, stored, ← label_eq]
      rfl
    · refine label_congr (cut.outside id same fun inside => ?_)
      exact absurd (new id inside) (Nat.not_lt.mpr (h.own_le id among))

/-- Resetting an own node leaves nothing below it. -/
theorem Grows.reset (h : Grows before middle own low high) (owned : node ∈ own) :
    Grows before (middle.apply (.reset node)) own low high ∧
      (middle.apply (.reset node)).get? node = some { label := middle.label? node } := by
  have starts : ∀ child ∈ middle.children node, low < child.index :=
    fun child among => (h.inside node (.inl owned) child among).2.1
  have closed : ∀ parent : NodeId, low < parent.index → ∀ child ∈ middle.children parent,
      low < child.index :=
    fun parent new child among => (h.inside parent (.inr new) child among).2.1
  have cut := cut_reset starts closed (Nat.not_lt.mpr (h.own_le node owned))
  exact ⟨h.cut owned cut (fun _ new => new) (by simp) rfl, cut.self⟩

/-- Attaching a node with the next handle as the last child of an own node. -/
theorem Grows.attach {stored : DisplayNode} {child : NodeId}
    (h : Grows before middle own low high) (owned : node ∈ own)
    (at_node : middle.get? node = some stored) (next : child.index = high + 1) :
    Grows before (middle.apply (.attach node stored.children.size child)) own low (high + 1) := by
  have node_le := (h.own_le node owned).trans h.le
  have other : node ≠ child := by
    rintro rfl
    omega
  have at_parent := get_attach_parent other at_node
  have at_child : (middle.apply (.attach node stored.children.size child)).get? child =
      some {} := by
    rw [get_attach_child other, h.fresh child (by omega)]
    rfl
  constructor
  · exact h.le.trans (Nat.le_succ _)
  · exact h.own_le
  · intro id beyond
    have not_parent : id ≠ node := by
      rintro rfl
      omega
    have not_child : id ≠ child := by
      rintro rfl
      omega
    rw [get_attach_of_ne not_parent not_child, h.fresh id (by omega)]
  · intro id foreign old
    have not_child : id ≠ child := by
      rintro rfl
      have := h.le
      omega
    rw [get_attach_of_ne (fun (same : id = node) => foreign (same ▸ owned)) not_child,
      h.outside id foreign old]
  · intro id within below among
    by_cases is_child : id = child
    · subst is_child
      simp [children_of_get at_child] at among
    by_cases is_parent : id = node
    · subst is_parent
      rw [children_of_get at_parent, Array.mem_push] at among
      rcases among with among | rfl
      · obtain ⟨up, new, le⟩ := h.inside id within below (children_of_get at_node ▸ among)
        exact ⟨up, new, by omega⟩
      · have := h.le
        exact ⟨by omega, by omega, by omega⟩
    · rw [children_congr (get_attach_of_ne is_parent is_child _)] at among
      obtain ⟨up, new, le⟩ := h.inside id within below among
      exact ⟨up, new, by omega⟩
  · intro id among
    rw [← h.labels id among]
    by_cases is_parent : id = node
    · subst is_parent
      rw [label?, label?, at_parent, at_node]
      rfl
    · have not_child : id ≠ child := by
        rintro rfl
        have := h.own_le id among
        have := h.le
        omega
      exact label_congr (get_attach_of_ne is_parent not_child _)

theorem get_setLabel_of_ne {id : NodeId} (other : id ≠ node) (label : String) :
    (tree.apply (.setLabel node label)).get? id = tree.get? id :=
  get_update_of_ne other _

/-- Labelling a node that a task made. -/
theorem Grows.label {stored : DisplayNode} {child : NodeId} (h : Grows before middle own low high)
    (new : low < child.index) (at_child : middle.get? child = some stored) (label : String) :
    Grows before (middle.apply (.setLabel child label)) own low high := by
  have labelled : (middle.apply (.setLabel child label)).get? child =
      some { stored with label := some label } := by
    rw [apply, get_update_self, at_child]
    rfl
  refine h.shrink ?_ ?_ ?_ ?_
  · intro id _ old
    refine get_setLabel_of_ne ?_ label
    rintro rfl
    omega
  · intro id beyond
    have other : id ≠ child := by
      rintro rfl
      rw [h.fresh id beyond] at at_child
      cases at_child
    rw [get_setLabel_of_ne other, h.fresh id beyond]
  · intro id below among
    by_cases same : id = child
    · subst same
      rw [children_of_get labelled] at among
      rwa [children_of_get at_child]
    · rwa [children_congr (get_setLabel_of_ne same label)] at among
  · intro id owned
    refine label_congr (get_setLabel_of_ne ?_ label)
    rintro rfl
    exact absurd (h.own_le id owned) (by omega)

/-- Opening a named part attaches a node with its label. -/
theorem Grows.open_named {stored : DisplayNode} {child : NodeId}
    (h : Grows before middle own low high) (owned : node ∈ own)
    (at_node : middle.get? node = some stored) (next : child.index = high + 1) (label : String) :
    let after := middle.play [.attach node stored.children.size child, .setLabel child label]
    Grows before after own low (high + 1) ∧
      after.get? node = some { stored with children := stored.children.push child } ∧
      after.get? child = some { label := some label } ∧
      ∀ id, id ≠ node → id ≠ child → after.get? id = middle.get? id := by
  intro after
  have node_le := (h.own_le node owned).trans h.le
  have other : node ≠ child := by
    rintro rfl
    omega
  have at_child : (middle.apply (.attach node stored.children.size child)).get? child =
      some {} := by
    rw [get_attach_child other, h.fresh child (by omega)]
    rfl
  have le := h.le
  refine ⟨(h.attach owned at_node next).label (by omega) at_child label, ?_, ?_, ?_⟩
  · exact (get_setLabel_of_ne other label).trans (get_attach_parent other at_node)
  · show (apply _ (.setLabel child label)).get? child = _
    rw [apply, get_update_self, at_child]
    rfl
  · intro id not_parent not_child
    exact (get_setLabel_of_ne not_child label).trans (get_attach_of_ne not_parent not_child _)

/-- Opening the parts of a sequence attaches the nodes of named parts in order, with their labels,
and there is nothing below the node of any part yet. -/
theorem Grows.open_parts {parts : List (Option String × Expr)} {named count : Nat}
    {stored : DisplayNode} (h : Grows before middle own low count) (owned : node ∈ own)
    (at_node : middle.get? node = some stored) (number : stored.children.size = named)
    (bounded : count + parts.length < UInt32.size) :
    let after := middle.play (Event.openParts node named count parts)
    let nodes := NodeId.nextHandles count parts.length
    let children := namedNodes (parts.map (·.1)) nodes
    Grows before after own low (count + parts.length) ∧
      after.get? node =
        some { stored with children := stored.children ++ (children.map (·.2)).toArray } ∧
      (∀ child ∈ children, after.label? child.2 = some child.1) ∧
      (∀ id ∈ nodes, after.children id = #[]) ∧
      ∀ id, id ≠ node → id.index ≤ count → after.get? id = middle.get? id := by
  induction parts generalizing middle named count stored with
  | nil =>
      intro after nodes children
      refine ⟨h, ?_, by simp [children, namedNodes], by simp [nodes, NodeId.nextHandles], ?_⟩
      · refine at_node.trans (congrArg some ?_)
        show stored = { stored with children := stored.children ++ #[] }
        rw [Array.append_empty]
      · exact fun _ _ _ => rfl
  | cons part parts ih =>
      obtain ⟨field, expr⟩ := part
      rw [List.length_cons] at bounded
      have index_eq : (NodeId.afterCount count).index = count + 1 :=
        index_afterCount (by omega)
      have node_le := (h.own_le node owned).trans h.le
      have other : NodeId.afterCount count ≠ node := by
        intro same
        rw [same] at index_eq
        omega
      rw [List.length_cons, next_handles_succ, ← Nat.add_assoc, Nat.add_right_comm]
      cases field with
      | none =>
          -- the node of a part without a name is never attached
          obtain ⟨grows, at_end, labelled, clean, same⟩ :=
            ih (h.more (Nat.le_succ count)) at_node number (by omega)
          refine ⟨grows, at_end, labelled, ?_, fun id not_node old => same id not_node (by omega)⟩
          intro id among
          rcases List.mem_cons.mp among with rfl | among
          · refine (children_congr (same _ other index_eq.le)).trans ?_
            exact h.fresh.children_eq (by omega)
          · exact clean id among
      | some label =>
          subst number
          obtain ⟨grown, at_parent, at_child, unchanged⟩ :=
            h.open_named owned at_node index_eq label
          obtain ⟨grows, at_end, labelled, clean, same⟩ :=
            ih grown at_parent (Array.size_push ..) (by omega)
          have same_child := (same _ other index_eq.le).trans at_child
          refine ⟨grows, ?_, ?_, ?_, ?_⟩
          · refine at_end.trans ?_
            simp
          · intro child among
            rcases List.mem_cons.mp among with rfl | among
            · rw [label?]
              exact congrArg (·.bind DisplayNode.label) same_child
            · exact labelled child among
          · intro id among
            rcases List.mem_cons.mp among with rfl | among
            · exact children_of_get same_child
            · exact clean id among
          · intro id not_node old
            have not_child : id ≠ .afterCount count := by
              rintro rfl
              omega
            exact (same id not_node (by omega)).trans (unchanged id not_node not_child)

end

end TracedGrammar.NodeTree

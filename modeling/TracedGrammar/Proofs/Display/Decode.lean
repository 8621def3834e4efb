import Mathlib.Data.List.Forall2
import Mathlib.Logic.Relation
import TracedGrammar.Proofs.Display.Tree
import TracedGrammar.Value

/-!
# Reading values off a display tree

A display tree that is complete shows a value. `NodeTree.value?` reads it off: a text is unquoted,
an absent part has nothing below it, a list has its items as children, and a record its fields, in
the order in which they were set. A node that is still pending shows no value, and neither does a
leaf with children, so that a tree with a value holds nothing else in reach of its root.

Reading follows children to a depth of the number of nodes, as rendering does. `NodeTree.Decodes`
leaves the depth open.
-/

namespace TracedGrammar

namespace Value

mutual

/-- The value with the spans of its records left out. -/
def eraseSpans : Value → Value
  | .absent => .absent
  | .text content => .text content
  | .list items => .list (eraseItems items)
  | .record ⟨tag, _, fields⟩ => .record ⟨tag, none, eraseFields fields⟩

/-- The items of a list with the spans left out. -/
def eraseItems : List Value → List Value
  | [] => []
  | item :: items => item.eraseSpans :: eraseItems items

/-- The fields of a record with the spans left out. -/
def eraseFields : List (String × Value) → List (String × Value)
  | [] => []
  | (name, value) :: fields => (name, value.eraseSpans) :: eraseFields fields

end

theorem erase_items_eq_map (items : List Value) : eraseItems items = items.map eraseSpans := by
  induction items with
  | nil => rfl
  | cons item items ih => rw [eraseItems, ih, List.map_cons]

theorem erase_fields_insertField (name : String) (value : Value) (fields : List (String × Value)) :
    eraseFields (Record.insertField name value fields) =
      Record.insertField name value.eraseSpans (eraseFields fields) := by
  induction fields with
  | nil => rfl
  | cons field fields ih =>
      obtain ⟨key, old⟩ := field
      by_cases same : key = name
      · simp [Record.insertField, eraseFields, same]
      · simp [Record.insertField, eraseFields, same, ih]

end Value

namespace NodeTree

/-- The value that a node shows, unless it is incomplete or has descendants beyond the given
depth. -/
def decodeNode? (tree : NodeTree) : (depth : Nat) → NodeId → Option Value
  | 0, _ => none
  | depth + 1, id => do
      let node ← tree.get? id
      match node.kind with
      | .pending => none
      | .text =>
          if node.children.isEmpty then (Json.unquote? node.text).map .text else none
      | .absent => if node.children.isEmpty then some .absent else none
      | .list => (node.children.toList.mapM (tree.decodeNode? depth)).map .list
      | .record => do
          let fields ← node.children.toList.mapM fun child => do
            return ((← tree.label? child), (← tree.decodeNode? depth child))
          return .record (fields.foldl (fun record field => record.insert field.1 field.2)
            { tag := some node.text })

/-- The value that the root shows. -/
def value? (tree : NodeTree) : Option Value :=
  tree.decodeNode? (tree.size + 1) .root

/-- A node of a tree shows a value if its children show the values that `decodes` gives them. The
fields of a record have to be labelled as `labels` demands for its name. -/
inductive Shows (tree : NodeTree) (labels : String → List String → Prop)
    (decodes : NodeId → Value → Prop) (node : DisplayNode) : Value → Prop where
  | text {content : String} (kind_eq : node.kind = .text) (leaf : node.children = #[])
      (read : Json.unquote? node.text = some content) :
      Shows tree labels decodes node (.text content)
  | absent (kind_eq : node.kind = .absent) (leaf : node.children = #[]) :
      Shows tree labels decodes node .absent
  | list {items : List Value} (kind_eq : node.kind = .list)
      (shown : List.Forall₂ decodes node.children.toList items) :
      Shows tree labels decodes node (.list items)
  | record {fields : List (String × Value)} (kind_eq : node.kind = .record)
      (named : labels node.text (fields.map (·.1)))
      (shown : List.Forall₂ (fun child field => tree.label? child = some field.1 ∧
        decodes child field.2) node.children.toList fields) :
      Shows tree labels decodes node (.record
        (fields.foldl (fun record field => record.insert field.1 field.2)
          { tag := some node.text }))

/-- A node shows a value, with no descendants beyond the given depth. -/
def DecodesTo (tree : NodeTree) (labels : String → List String → Prop) :
    (depth : Nat) → NodeId → Value → Prop
  | 0, _, _ => False
  | depth + 1, id, value =>
      ∃ node, tree.get? id = some node ∧ tree.Shows labels (tree.DecodesTo labels depth) node value

/-- A node shows a value. -/
def Decodes (tree : NodeTree) (labels : String → List String → Prop) (id : NodeId)
    (value : Value) : Prop :=
  ∃ depth, tree.DecodesTo labels depth id value

/-- A node has what its kind demands, and nothing else: a leaf has no children, and the fields of a
record are labelled as its name demands. A pending node is not complete. -/
def Complete (tree : NodeTree) (labels : String → List String → Prop) (node : DisplayNode) : Prop :=
  match node.kind with
  | .pending => False
  | .text | .absent => node.children = #[]
  | .list => True
  | .record => ∃ names, labels node.text names ∧
      node.children.toList.map tree.label? = names.map some

theorem mapM_eq_some_iff {α β : Type} {read : α → Option β} {items : List α} {results : List β} :
    items.mapM read = some results ↔
      List.Forall₂ (fun item result => read item = some result) items results := by
  induction items generalizing results with
  | nil => cases results <;> simp
  | cons item items ih =>
      rw [List.mapM_cons]
      cases results with
      | nil => cases first : read item <;> cases rest : items.mapM read <;> simp
      | cons result results =>
          rw [List.forall₂_cons, ← ih]
          cases read item <;> cases items.mapM read <;> simp

section

variable {tree before after : NodeTree} {labels : String → List String → Prop} {id : NodeId}
  {node : DisplayNode} {value : Value} {depth more : Nat}

theorem Shows.imp {decodes decodes' : NodeId → Value → Prop}
    (same : ∀ child ∈ node.children, after.label? child = before.label? child)
    (h : ∀ child ∈ node.children, ∀ value, decodes child value → decodes' child value)
    (shown : before.Shows labels decodes node value) : after.Shows labels decodes' node value := by
  cases shown with
  | text kind_eq leaf read => exact .text kind_eq leaf read
  | absent kind_eq leaf => exact .absent kind_eq leaf
  | list kind_eq shown =>
      refine .list kind_eq ?_
      have among := (List.forall₂_and_left _ _).mpr
        ⟨fun child (within : child ∈ node.children.toList) => Array.mem_toList_iff.mp within, shown⟩
      exact among.imp fun child value both => h child both.1 value both.2
  | record kind_eq named shown =>
      refine .record kind_eq named ?_
      have among := (List.forall₂_and_left _ _).mpr
        ⟨fun child (within : child ∈ node.children.toList) => Array.mem_toList_iff.mp within, shown⟩
      exact among.imp fun child field both =>
        ⟨(same child both.1).trans both.2.1, h child both.1 field.2 both.2.2⟩

theorem decode_of_shows (stored : tree.get? id = some node)
    (h : tree.Shows labels (fun child value => tree.decodeNode? depth child = some value) node
      value) : tree.decodeNode? (depth + 1) id = some value := by
  rw [decodeNode?, stored, Option.bind_eq_bind, Option.bind_some]
  cases h with
  | text kind_eq leaf read => simp [kind_eq, leaf, read]
  | absent kind_eq leaf => simp [kind_eq, leaf]
  | list kind_eq shown => simp [kind_eq, mapM_eq_some_iff.mpr shown]
  | @record fields kind_eq named shown =>
      have read : node.children.toList.mapM (fun child => do
          return ((← tree.label? child), (← tree.decodeNode? depth child))) = some fields :=
        mapM_eq_some_iff.mpr (shown.imp fun child field both => by rw [both.1, both.2]; rfl)
      simp only [kind_eq, read]
      rfl

/-- What is shown to a depth is shown to a greater one. -/
theorem DecodesTo.mono (h : tree.DecodesTo labels depth id value) (le : depth ≤ more) :
    tree.DecodesTo labels more id value := by
  induction depth generalizing id value more with
  | zero => exact h.elim
  | succ depth ih =>
      obtain ⟨more, rfl⟩ : ∃ less, more = less + 1 := ⟨more - 1, by omega⟩
      obtain ⟨node, stored, shown⟩ := h
      refine ⟨node, stored, shown.imp (fun _ _ => rfl) fun child _ value decoded => ?_⟩
      exact ih decoded (Nat.le_of_succ_le_succ le)

/-- Nodes that show values show them all to some depth. -/
theorem exists_depth {items : List NodeId} {results : List Value}
    (h : List.Forall₂ (tree.Decodes labels) items results) :
    ∃ depth, List.Forall₂ (tree.DecodesTo labels depth) items results := by
  induction h with
  | nil => exact ⟨0, .nil⟩
  | cons first _ ih =>
      obtain ⟨one, decoded⟩ := first
      obtain ⟨depth, rest⟩ := ih
      refine ⟨max one depth, .cons (decoded.mono (le_max_left ..)) ?_⟩
      exact rest.imp fun child value shown => shown.mono (le_max_right ..)

/-- A node shows a value if its children show what belongs to it. -/
theorem decodes_of_shows (stored : tree.get? id = some node)
    (h : tree.Shows labels (tree.Decodes labels) node value) : tree.Decodes labels id value := by
  cases h with
  | text kind_eq leaf read => exact ⟨1, node, stored, .text kind_eq leaf read⟩
  | absent kind_eq leaf => exact ⟨1, node, stored, .absent kind_eq leaf⟩
  | list kind_eq shown =>
      obtain ⟨depth, decoded⟩ := exists_depth shown
      exact ⟨depth + 1, node, stored, .list kind_eq decoded⟩
  | @record fields kind_eq named shown =>
      have values : List.Forall₂ (tree.Decodes labels) node.children.toList (fields.map (·.2)) :=
        List.forall₂_map_right_iff.mpr (shown.imp fun child field both => both.2)
      obtain ⟨depth, decoded⟩ := exists_depth values
      refine ⟨depth + 1, node, stored, .record kind_eq named ?_⟩
      exact shown.mp (fun child field both decoded => ⟨both.1, decoded⟩)
        (List.forall₂_map_right_iff.mp decoded)

theorem shows_of_decodes (h : tree.Decodes labels id value) :
    ∃ node, tree.get? id = some node ∧ tree.Shows labels (tree.Decodes labels) node value := by
  obtain ⟨depth, decoded⟩ := h
  cases depth with
  | zero => exact decoded.elim
  | succ depth =>
      obtain ⟨node, stored, shown⟩ := decoded
      exact ⟨node, stored, shown.imp (fun _ _ => rfl) fun child _ value decoded => ⟨depth, decoded⟩⟩

/-- What a node shows depends on no more than the nodes of a region that is closed under
children. -/
theorem Decodes.congr {region : NodeId → Prop}
    (closed : ∀ parent, region parent → ∀ child ∈ before.children parent, region child)
    (same : ∀ id, region id → after.get? id = before.get? id) (inside : region id)
    (h : before.Decodes labels id value) : after.Decodes labels id value := by
  obtain ⟨depth, decoded⟩ := h
  induction depth generalizing id value with
  | zero => exact decoded.elim
  | succ depth ih =>
      obtain ⟨node, stored, shown⟩ := decoded
      refine decodes_of_shows ((same id inside).trans stored) (shown.imp ?_ ?_)
      · intro child among
        rw [label?, label?, same child (closed id inside child (children_of_get stored ▸ among))]
      · intro child among value decoded
        exact ih (closed id inside child (children_of_get stored ▸ among)) decoded

/-- Below a node with a value every node has one. -/
theorem Decodes.child {child : NodeId} (h : tree.Decodes labels id value)
    (among : child ∈ tree.children id) : ∃ value, tree.Decodes labels child value := by
  have partner {β : Type} {related : NodeId → β → Prop} {ids : List NodeId} {results : List β}
      (all : List.Forall₂ related ids results) (within : child ∈ ids) :
      ∃ result, related child result := by
    induction all with
    | nil => cases within
    | cons first _ ih =>
        rcases List.mem_cons.mp within with rfl | within
        · exact ⟨_, first⟩
        · exact ih within
  obtain ⟨node, stored, shown⟩ := shows_of_decodes h
  rw [children_of_get stored] at among
  cases shown with
  | text kind_eq leaf => simp [leaf] at among
  | absent kind_eq leaf => simp [leaf] at among
  | list kind_eq shown => exact partner shown (Array.mem_toList_iff.mpr among)
  | record kind_eq named shown =>
      obtain ⟨field, labelled, decoded⟩ := partner shown (Array.mem_toList_iff.mpr among)
      exact ⟨field.2, decoded⟩

/-- A node that shows a value is stored and complete. -/
theorem Decodes.complete (h : tree.Decodes labels id value) :
    ∃ node, tree.get? id = some node ∧ tree.Complete labels node := by
  obtain ⟨node, stored, shown⟩ := shows_of_decodes h
  refine ⟨node, stored, ?_⟩
  unfold Complete
  cases shown with
  | text kind_eq leaf | absent kind_eq leaf =>
      rw [kind_eq]
      exact leaf
  | list kind_eq =>
      rw [kind_eq]
      exact trivial
  | @record fields kind_eq named shown =>
      rw [kind_eq]
      have labelled : List.Forall₂ Eq (node.children.toList.map tree.label?)
          (fields.map fun field => some field.1) :=
        List.forall₂_map_left_iff.mpr
          (List.forall₂_map_right_iff.mpr (shown.imp fun child field both => both.1))
      rw [List.forall₂_eq_eq_eq] at labelled
      exact ⟨_, named, by rw [labelled, List.map_map]; rfl⟩

/-- A node is in reach of another one. -/
def Reaches (tree : NodeTree) : NodeId → NodeId → Prop :=
  Relation.ReflTransGen fun parent child => child ∈ tree.children parent

/-- All in reach of a node with a value is stored and complete. -/
theorem Decodes.reaches {other : NodeId} (h : tree.Decodes labels id value)
    (reached : tree.Reaches id other) :
    ∃ node, tree.get? other = some node ∧ tree.Complete labels node := by
  have decodes : ∃ value, tree.Decodes labels other value := by
    induction reached with
    | refl => exact ⟨value, h⟩
    | tail _ among ih =>
        obtain ⟨value, shown⟩ := ih
        exact shown.child among
  obtain ⟨value, shown⟩ := decodes
  exact shown.complete

/-- The number of nodes with an index that is not below the one of a handle. -/
def rank (tree : NodeTree) (id : NodeId) : Nat :=
  (tree.nodes.keys.filter (id.index ≤ ·)).length

theorem rank_le_size (tree : NodeTree) (id : NodeId) : tree.rank id ≤ tree.size := by
  rw [rank, size, ← Std.TreeMap.length_keys]
  exact List.length_filter_le ..

theorem rank_lt {child : NodeId} (stored : tree.get? id = some node)
    (later : id.index < child.index) : tree.rank child < tree.rank id := by
  have present : id.index ∈ tree.nodes.keys := by
    rw [Std.TreeMap.mem_keys, Std.TreeMap.mem_iff_isSome_getElem?]
    exact Option.isSome_iff_exists.mpr ⟨node, stored⟩
  have narrower : tree.nodes.keys.filter (child.index ≤ ·) =
      (tree.nodes.keys.filter (id.index ≤ ·)).filter (child.index ≤ ·) := by
    rw [List.filter_filter]
    refine List.filter_congr fun index _ => ?_
    rw [Bool.eq_iff_iff, Bool.and_eq_true, decide_eq_true_eq, decide_eq_true_eq]
    omega
  rw [rank, rank, narrower, List.length_filter_lt_length_iff_exists]
  exact ⟨id.index, List.mem_filter.mpr ⟨present, by simp⟩, by simpa using later⟩

/-- Where every child has a higher index than its parent, the number of nodes bounds the depth. -/
theorem Decodes.decode_of_rank {region : NodeId → Prop}
    (closed : ∀ parent, region parent → ∀ child ∈ tree.children parent,
      region child ∧ parent.index < child.index)
    (inside : region id) (h : tree.Decodes labels id value) (enough : tree.rank id < depth) :
    tree.decodeNode? depth id = some value := by
  obtain ⟨some_depth, decoded⟩ := h
  induction some_depth generalizing id value depth with
  | zero => exact decoded.elim
  | succ some_depth ih =>
      obtain ⟨depth, rfl⟩ : ∃ less, depth = less + 1 := ⟨depth - 1, by omega⟩
      obtain ⟨node, stored, shown⟩ := decoded
      refine decode_of_shows stored (shown.imp (fun _ _ => rfl) fun child among value decoded => ?_)
      -- a child has a lower rank, so the depth that is left is enough for it
      obtain ⟨within, later⟩ := closed id inside child (children_of_get stored ▸ among)
      exact ih within (by have := rank_lt stored later; omega) decoded

end

end NodeTree

end TracedGrammar

import TracedGrammar.Proofs.Display.Growth
import TracedGrammar.Proofs.Json.Unquote

/-!
# Traces show the value of a match

A match shows its value while it goes on, before it is known what will come of it. By induction on
its derivation, what the node of an expression shows in the end decodes to the value that the
expression has, with the spans left out, and everything that was shown for an attempt that failed is
out of reach again (`Traced.builds`).

A bare sequence shows its fields but not that it is a record; that is up to the rule around it. So
the expressions this holds for are those in which each sequence is the body of a tagged rule
(`Expr.Displays`), as in a grammar.
-/

namespace TracedGrammar

mutual

/-- Every sequence in the expression is the body of a tagged rule, with parts that are labelled as
is demanded for records of that name. -/
def Expr.Displays (labels : String → List String → Prop) : Expr → Prop
  | .literal _ | .charClass _ | .call _ | .never => True
  | .stringify body | .optional body | .repeated _ body | .untagged _ body | .located _ body =>
      body.Displays labels
  | .orElse before alternative => before.Displays labels ∧ alternative.Displays labels
  | .tagged rule body => body.Sequences labels ∧ labels rule (body.parts.filterMap (·.1))
  | .empty | .append .. => False

/-- A sequence whose parts display their values. -/
def Expr.Sequences (labels : String → List String → Prop) : Expr → Prop
  | .empty => True
  | .append before _ part => before.Sequences labels ∧ part.Displays labels
  | _ => False

end

/-- The fields that there are once the given ones have been inserted in order. -/
def Record.insertAll (shown : List (String × Value)) : List (String × Value) :=
  shown.foldl (fun fields field => Record.insertField field.1 field.2 fields) []

/-- The nodes bear the given names and show values that make up the given fields. -/
def NodeTree.ShowsFields (tree : NodeTree) (labels : String → List String → Prop)
    (children : List NodeId) (names : List String) (fields : List (String × Value)) : Prop :=
  ∃ shown : List (String × Value), shown.map (·.1) = names ∧
    List.Forall₂ (fun child field => tree.label? child = some field.1 ∧
      tree.Decodes labels child field.2) children shown ∧
    fields = Record.insertAll shown

section

variable (labels : String → List String → Prop) (before after : NodeTree) (count count' : Nat)
  (outcome : Outcome)

/-- The events of an expression on a node show its value there if it matched. -/
def Expr.BuildsValue (subject : Expr) (node : NodeId) : Prop :=
  subject.Displays labels → before.Clean [node] count →
    before.Grows after [node] count count' ∧
      ∀ value, outcome = .matched value → after.Decodes labels node value.eraseSpans

/-- The events of a sequence on a node put nodes below it that show the fields. -/
def Expr.BuildsFields (subject : Expr) (node : NodeId) : Prop :=
  subject.Sequences labels → ∀ stored, node.index ≤ count → before.get? node = some stored →
    stored.children = #[] →
    before.Grows after [node] count count' ∧
      ∀ value, outcome = .matched value → ∃ fields children,
        value = .record { fields } ∧ after.get? node = some { stored with children } ∧
          after.ShowsFields labels children.toList (subject.parts.filterMap (·.1))
            (Value.eraseFields fields)

/-- The events of the parts of a sequence show the values of the named ones. -/
def Expr.BuildsParts (subject : Expr) (nodes : List NodeId) : Prop :=
  subject.Sequences labels → nodes.Nodup → before.Clean nodes count →
    before.Grows after nodes count count' ∧
      ∀ value, outcome = .matched value → ∃ fields, ∃ shown : List (String × Value),
        value = .record { fields } ∧
        List.Forall₂ (fun child field => child.1 = field.1 ∧
            after.Decodes labels child.2 field.2)
          (NodeTree.namedNodes (subject.parts.map (·.1)) nodes) shown ∧
        Value.eraseFields fields = Record.insertAll shown

/-- The events of further items of a repetition show them behind the earlier ones. What counts is
the tree before the whole repetition, where `low` handles had been given out. -/
def Expr.BuildsItems (body : Expr) (node : NodeId) (earlier : List Value) : Prop :=
  body.Displays labels → ∀ origin low stored, NodeTree.Grows origin before [node] low count →
    before.get? node = some stored → stored.kind = .list →
    List.Forall₂ (before.Decodes labels) stored.children.toList
      (earlier.reverse.map Value.eraseSpans) →
    origin.Grows after [node] low count' ∧
      ∀ value, outcome = .matched value → after.Decodes labels node value.eraseSpans

/-- What the events of a task do to a tree, and what it shows then if the task matched. -/
def Task.Builds : Task → Prop
  | .expr subject node =>
      subject.BuildsValue labels before after count count' outcome node ∧
        subject.BuildsFields labels before after count count' outcome node
  | .parts subject nodes => subject.BuildsParts labels before after count count' outcome nodes
  | .options subject node => subject.BuildsValue labels before after count count' outcome node
  | .items _ body node earlier =>
      body.BuildsItems labels before after count count' outcome node earlier

end

namespace NodeTree

variable {before middle after tree : NodeTree} {own : List NodeId} {node : NodeId}
  {low mid high count : Nat} {labels : String → List String → Prop}

/-- A node with nothing below it shows the text that it is given. -/
theorem decodes_shown_text (leaf : tree.children node = #[]) (content : String) :
    (tree.play (Event.shows node (Json.quote content) .text)).Decodes labels node
      (.text content) := by
  refine decodes_of_shows (play_shows_self ..) (.text rfl ?_ (Json.unquote_quote content))
  exact (children_getD tree node).trans leaf

theorem decodes_shown_absent (leaf : tree.children node = #[]) (text : String) :
    (tree.play (Event.shows node text .absent)).Decodes labels node .absent := by
  refine decodes_of_shows (play_shows_self ..) (.absent rfl ?_)
  exact (children_getD tree node).trans leaf

/-- A change that leaves alone what a task made leaves alone what its nodes show. -/
theorem Grows.decodes_congr {id : NodeId} {value : Value} (h : before.Grows middle own low high)
    (within : id ∈ own)
    (same : ∀ other, other ∈ own ∨ low < other.index ∧ other.index ≤ high →
      after.get? other = middle.get? other)
    (shown : middle.Decodes labels id value) : after.Decodes labels id value := by
  have closed : ∀ parent, parent ∈ own ∨ low < parent.index ∧ parent.index ≤ high →
      ∀ child ∈ middle.children parent, child ∈ own ∨ low < child.index ∧ child.index ≤ high := by
    intro parent inside child among
    have owned_or_new : parent ∈ own ∨ low < parent.index := by
      rcases inside with owned | new
      · exact .inl owned
      · exact .inr new.1
    exact .inr (h.inside parent owned_or_new child among).2
  exact Decodes.congr closed same (.inl within) shown

/-- A record shows its fields. -/
theorem decodes_record {stored : DisplayNode} {fields : List (String × Value)}
    (h : tree.get? node = some stored) (kind_eq : stored.kind = .record)
    {names : List String} (named : labels stored.text names)
    (shown : tree.ShowsFields labels stored.children.toList names fields) :
    tree.Decodes labels node (.record { tag := some stored.text, fields }) := by
  obtain ⟨values, rfl, all, rfl⟩ := shown
  have folded : ∀ (values : List (String × Value)) (record : Record Value),
      values.foldl (fun record field => record.insert field.1 field.2) record =
        { record with
          fields := values.foldl (fun fields field => Record.insertField field.1 field.2 fields)
            record.fields } := by
    intro values
    induction values with
    | nil => exact fun _ => rfl
    | cons field values ih =>
        intro record
        rw [List.foldl_cons, ih]
        rfl
  have decoded := decodes_of_shows h (.record kind_eq named all)
  rw [folded] at decoded
  exact decoded

/-- What a leaf shows. -/
theorem builds_leaf (fresh : before.Fresh count) (clean : before.Clean [node] count)
    (content : String) (cursor : Cursor) :
    before.Grows (before.play (Event.leaf node content cursor)) [node] count count ∧
      (before.play (Event.leaf node content cursor)).Decodes labels node (.text content) := by
  have no_child := (clean node List.mem_cons_self).2
  rw [Event.leaf, play_append]
  exact ⟨(Grows.refl fresh clean (Nat.le_refl _)).shows List.mem_cons_self _ _,
    decodes_shown_text no_child content⟩

theorem clean_of_get {stored : DisplayNode} (node_le : node.index ≤ count)
    (at_node : tree.get? node = some stored) (leaf : stored.children = #[]) :
    tree.Clean [node] count := by
  intro id among
  rw [List.mem_singleton] at among
  subst among
  exact ⟨node_le, (children_of_get at_node).trans leaf⟩

/-- A node that was not given out before has nothing below it, and is a task's own from then on. -/
theorem clean_afterCount (fresh : before.Fresh count) (bounded : count + 1 < UInt32.size) :
    before.Clean [.afterCount count] (count + 1) := by
  have index_eq := index_afterCount bounded
  intro id among
  rw [List.mem_singleton] at among
  subst among
  exact ⟨index_eq.le, fresh.children_eq (by omega)⟩

/-- Work on a node that is never attached leaves a task's own node as it is. -/
theorem Grows.scratch (h : before.Grows middle [.afterCount count] (count + 1) high)
    (fresh : before.Fresh count) (clean : before.Clean [node] count)
    (bounded : count + 1 < UInt32.size) :
    before.Grows middle [node] count high ∧ middle.children node = #[] := by
  have index_eq := index_afterCount bounded
  have node_le := (clean node List.mem_cons_self).1
  constructor
  · refine (Grows.refl fresh clean (Nat.le_succ count)).trans h fun id among => .inr ?_
    rw [List.mem_singleton] at among
    subst among
    omega
  · have other : node ∉ [NodeId.afterCount count] := by
      intro among
      rw [List.mem_singleton] at among
      subst among
      omega
    rw [children_congr (h.outside node other (by omega))]
    exact (clean node List.mem_cons_self).2

/-- Work on the node of a further item, which is the last child of a list by then. -/
theorem Grows.item {origin : NodeTree} {stored : DisplayNode} {child : NodeId}
    (h : origin.Grows before [node] low count) (at_node : before.get? node = some stored)
    (next : child.index = count + 1)
    (inner : (before.apply (.attach node stored.children.size child)).Grows after [child]
      (count + 1) high) :
    origin.Grows after [node] low high ∧
      after.get? node = some { stored with children := stored.children.push child } ∧
      ∀ other, other ≠ node → other.index ≤ count → after.get? other = before.get? other := by
  have le := h.le
  have node_le := (h.own_le node List.mem_cons_self).trans le
  have attached := h.attach List.mem_cons_self at_node next
  have apart : ∀ other : NodeId, other.index ≤ count → other ∉ [child] := by
    intro other old among
    rw [List.mem_singleton] at among
    subst among
    omega
  refine ⟨attached.trans inner fun other among => .inr ?_, ?_, ?_⟩
  · rw [List.mem_singleton] at among
    subst among
    omega
  · rw [inner.outside node (apart node node_le) (by omega)]
    refine get_attach_parent ?_ at_node
    rintro rfl
    omega
  · intro other not_node old
    rw [inner.outside other (apart other old) (by omega)]
    refine get_attach_of_ne not_node ?_ _
    rintro rfl
    omega

/-- The items of a list go on to show their values as long as nothing but newer nodes changes. -/
theorem Grows.items_congr {origin : NodeTree} {stored : DisplayNode} {items : List Value}
    (h : origin.Grows before [node] low count) (at_node : before.get? node = some stored)
    (same : ∀ other, other ≠ node → other.index ≤ count → after.get? other = before.get? other)
    (all : List.Forall₂ (before.Decodes labels) stored.children.toList items) :
    List.Forall₂ (after.Decodes labels) stored.children.toList items := by
  have closed : ∀ parent : NodeId, low < parent.index ∧ parent.index ≤ count →
      ∀ child ∈ before.children parent, low < child.index ∧ child.index ≤ count :=
    fun parent new child among => (h.inside parent (.inr new.1) child among).2
  have among := (List.forall₂_and_left _ _).mpr
    ⟨fun child (among : child ∈ stored.children.toList) => Array.mem_toList_iff.mp among, all⟩
  refine among.imp fun child value both => ?_
  rw [← children_of_get at_node] at both
  refine Decodes.congr closed (fun other new => same other ?_ new.2)
    (h.inside node (.inl List.mem_cons_self) child both.1).2 both.2
  rintro rfl
  exact absurd (h.own_le other List.mem_cons_self) (by omega)

theorem play_put_back (start : Nat) (reply : Reply) :
    tree.play (Event.putBack start reply) = tree := by
  unfold Event.putBack
  split <;> rfl

theorem clean_attached {child : NodeId} (fresh : before.Fresh count)
    (node_le : node.index ≤ count) (next : child.index = count + 1) (index : Nat) :
    (before.apply (.attach node index child)).Clean [child] (count + 1) := by
  have other : node ≠ child := by
    rintro rfl
    omega
  refine clean_of_get next.le (get_attach_child other index) ?_
  rw [fresh child (by omega)]
  rfl

/-- The item that ends a repetition leaves no trace on the list. -/
theorem cut_item {stored : DisplayNode} {child : NodeId}
    (inner : before.Grows after [child] (count + 1) high) (next : child.index = count + 1)
    (node_le : node.index ≤ count)
    (at_node : after.get? node = some { stored with children := stored.children.push child }) :
    Cut after (after.apply (.detach node)) (fun id => count < id.index) node stored := by
  refine cut_detach at_node (by omega) (fun parent new below among => ?_) (by omega)
  have owned_or_new : parent ∈ [child] ∨ count + 1 < parent.index := by
    by_cases same : parent = child
    · exact .inl (List.mem_singleton.mpr same)
    · have := index_ne same
      omega
  have := (inner.inside parent owned_or_new below among).2.1
  omega

end NodeTree

/-- A sequence is not a part of its own. -/
theorem Expr.Sequences.parts_ne {labels : String → List String → Prop} {subject : Expr}
    (h : subject.Sequences labels) :
    subject.parts ≠ [(none, subject)] := by
  intro whole
  cases subject with
  | empty => cases whole
  | append before field part =>
      have whole : before.parts ++ [(field, part)] =
          [] ++ [(none, .append before field part)] := whole
      -- the last part would be the sequence itself, but it is smaller
      have last : field = none ∧ part = .append before field part := by
        simpa using (List.append_inj' whole rfl).2
      have sizes := congrArg sizeOf last.2
      rw [Expr.append.sizeOf_spec] at sizes
      omega
  | _ => exact h.elim

open NodeTree

section

variable {origin before middle after : NodeTree} {count count' count'' low mid high : Nat}
  {outcome outcome' : Outcome} {labels : String → List String → Prop} {subject body : Expr}
  {node : NodeId} {nodes : List NodeId}

/-- A sequence shows its fields if its parts show their values on the nodes opened for them. -/
theorem builds_fields (fresh : before.Fresh count)
    (fits : count + subject.parts.length < UInt32.size)
    (built : (before.play (Event.openParts node 0 count subject.parts)).Fresh
        (count + subject.parts.length) →
      subject.BuildsParts labels (before.play (Event.openParts node 0 count subject.parts)) after
        (count + subject.parts.length) count' outcome
        (NodeId.nextHandles count subject.parts.length)) :
    subject.BuildsFields labels before after count count' outcome node := by
  intro sequences stored node_le at_node leaf
  have clean := clean_of_get node_le at_node leaf
  have no_child_yet : stored.children.size = 0 := by
    rw [leaf]
    rfl
  obtain ⟨grows, opened, labelled, clean_nodes, -⟩ :=
    (Grows.refl fresh clean (Nat.le_refl _)).open_parts List.mem_cons_self at_node no_child_yet fits
  have nodes_new := fun id => @mem_next_handles count _ id fits
  obtain ⟨grows_parts, shown_parts⟩ :=
    built grows.fresh sequences (nodup_next_handles fits)
      fun id among => ⟨(nodes_new id among).2, clean_nodes id among⟩
  refine ⟨grows.trans grows_parts fun id among => .inr (nodes_new id among).1, ?_⟩
  intro value matched
  obtain ⟨fields, shown, rfl, all, fields_eq⟩ := shown_parts value matched
  have foreign : node ∉ NodeId.nextHandles count subject.parts.length := by
    intro among
    exact absurd (nodes_new node among).1 (Nat.not_lt.mpr node_le)
  have at_end := (grows_parts.outside node foreign (by omega)).trans opened
  refine ⟨fields, _, rfl, at_end, shown, ?_, ?_, fields_eq⟩
  · have names_eq : List.Forall₂ Eq ((namedNodes _ _).map (·.1)) (shown.map (·.1)) :=
      List.forall₂_map_left_iff.mpr
        (List.forall₂_map_right_iff.mpr (all.imp fun child field both => both.1))
    rw [List.forall₂_eq_eq_eq] at names_eq
    rw [← names_eq, map_named_nodes (by simp [NodeId.nextHandles]), List.filterMap_map]
    rfl
  · have children_eq : ∀ named : List NodeId,
        (stored.children ++ named.toArray).toList = named := by
      intro named
      rw [leaf]
      simp
    rw [children_eq, List.forall₂_map_left_iff]
    have among := (List.forall₂_and_left _ _).mpr
      ⟨fun child (among : child ∈ namedNodes _ _) => among, all⟩
    refine among.imp fun child field both => ⟨?_, both.2.2⟩
    rw [grows_parts.labels child.2 (mem_of_named both.1), labelled child both.1, both.2.1]

/-- A tagged rule shows a record if its sequence shows the fields. -/
theorem builds_record {rule : String} (fresh : before.Fresh count)
    (built : (before.play (Event.shows node rule .record)).Fresh count →
      body.BuildsFields labels (before.play (Event.shows node rule .record)) after count count'
        outcome node)
    (tagged : ∀ value, outcome' = .matched value → ∃ content span, outcome = .matched content ∧
      value = .record (content.asRuleRecord rule span)) :
    (Expr.tagged rule body).BuildsValue labels before after count count' outcome' node := by
  rintro ⟨sequences, named⟩ clean
  have node_le := (clean node List.mem_cons_self).1
  have no_child := (children_getD before node).trans (clean node List.mem_cons_self).2
  have grows := (Grows.refl fresh clean (Nat.le_refl _)).shows List.mem_cons_self rule .record
  obtain ⟨grows_fields, shown⟩ :=
    built grows.fresh sequences _ node_le (play_shows_self rule .record) no_child
  refine ⟨grows.trans grows_fields fun id owned => .inl owned, ?_⟩
  intro value matched
  obtain ⟨content, span, inner_matched, rfl⟩ := tagged value matched
  obtain ⟨fields, children, rfl, at_end, fields_shown⟩ := shown content inner_matched
  exact decodes_record at_end rfl named fields_shown

/-- A further part shows its value beside the parts before. -/
theorem builds_further_part {part : Expr} {field : Option String} {content : Value}
    (first : subject.BuildsParts labels before middle count count' (.matched content) nodes)
    (second : middle.Fresh count' →
      part.BuildsValue labels middle after count' count'' outcome node)
    (fits : nodes.length = subject.parts.length)
    (joined : ∀ value, outcome' = .matched value → ∃ item, outcome = .matched item ∧
      value = content.extend field item) :
    (Expr.append subject field part).BuildsParts labels before after count count'' outcome'
      (nodes ++ [node]) := by
  rintro ⟨sequences, display⟩ nodup clean
  obtain ⟨nodup_before, -, apart⟩ := List.nodup_append.mp nodup
  have not_before : node ∉ nodes := fun among => apart node among node List.mem_cons_self rfl
  have node_clean := clean node (List.mem_append_right _ List.mem_cons_self)
  have clean_before : before.Clean nodes count :=
    fun id among => clean id (List.mem_append_left _ among)
  obtain ⟨grows, shown_before⟩ := first sequences nodup_before clean_before
  have clean_part : middle.Clean [node] count' := by
    intro id among
    rw [List.mem_singleton] at among
    subst among
    refine ⟨node_clean.1.trans grows.le, ?_⟩
    rw [children_congr (grows.outside id not_before node_clean.1)]
    exact node_clean.2
  obtain ⟨grows_part, shown_part⟩ := second grows.fresh display clean_part
  refine ⟨(grows.widen clean fun id among => List.mem_append_left _ among).trans grows_part
    fun id among => .inl (List.mem_append_right _ among), ?_⟩
  intro value matched
  obtain ⟨item, part_matched, rfl⟩ := joined value matched
  obtain ⟨fields, shown, rfl, all, fields_eq⟩ := shown_before content rfl
  -- the part works on its own node and newer ones, so the parts before still show the same
  have kept : List.Forall₂ (fun child field => child.1 = field.1 ∧
      after.Decodes labels child.2 field.2)
      (namedNodes (subject.parts.map (·.1)) nodes) shown := by
    have among := (List.forall₂_and_left _ _).mpr
      ⟨fun child (among : child ∈ namedNodes _ nodes) => mem_of_named among, all⟩
    refine among.imp fun child field both => ⟨both.2.1, ?_⟩
    refine grows.decodes_congr both.1 (fun other within => ?_) both.2.2
    refine grows_part.outside other (fun same => ?_) ?_
    · rw [List.mem_singleton] at same
      subst same
      exact within.elim not_before fun new => absurd new.1 (Nat.not_lt.mpr node_clean.1)
    · rcases within with owned | new
      · exact (clean_before other owned).1.trans grows.le
      · exact new.2
  rw [Expr.parts, List.map_append, List.map_singleton,
    named_nodes_append (by rw [List.length_map, fits])]
  cases field with
  | none => exact ⟨fields, shown, rfl, by simpa using kept, fields_eq⟩
  | some label =>
      refine ⟨_, shown ++ [(label, item.eraseSpans)], rfl, ?_, ?_⟩
      · exact List.rel_append kept (.cons ⟨rfl, shown_part item part_matched⟩ .nil)
      · show Value.eraseFields (Record.insertField label item fields) = _
        rw [Value.erase_fields_insertField, fields_eq, Record.insertAll, Record.insertAll,
          List.foldl_append]
        rfl

/-- An alternative of a choice finds its node as if no other had been tried before. -/
theorem builds_alternative (h : origin.Grows before [node] low mid)
    (display : subject.Displays labels)
    (built : (before.apply (.reset node)).Fresh mid →
      subject.BuildsValue labels (before.apply (.reset node)) after mid high outcome node) :
    origin.Grows after [node] low high ∧
      ∀ value, outcome = .matched value → after.Decodes labels node value.eraseSpans := by
  obtain ⟨grows, at_node⟩ := h.reset List.mem_cons_self
  have clean := clean_of_get ((h.own_le node List.mem_cons_self).trans h.le) at_node rfl
  obtain ⟨inner, shown⟩ := built grows.fresh display clean
  exact ⟨grows.trans inner fun id owned => .inl owned, shown⟩

/-- The item that does not match is cut off again, and the list shows the items before it. -/
theorem builds_last_item {earlier : List Value} (new : count + 1 < UInt32.size)
    (built : (before.apply (.attach node earlier.length (.afterCount count))).Fresh (count + 1) →
      body.BuildsValue labels (before.apply (.attach node earlier.length (.afterCount count))) after
        (count + 1) count' outcome' (.afterCount count))
    (listed : ∀ value, outcome = .matched value → value = .list earlier.reverse) :
    body.BuildsItems labels before (after.apply (.detach node)) count count' outcome node
      earlier := by
  intro display origin low stored grows at_node kind_eq all
  have index_eq := index_afterCount new
  have node_le := (grows.own_le node List.mem_cons_self).trans grows.le
  have length_eq : earlier.length = stored.children.size := by
    simpa using all.length_eq.symm
  rw [length_eq] at built
  have attached := grows.attach List.mem_cons_self at_node index_eq
  obtain ⟨grows_item, -⟩ := built attached.fresh display
    (clean_attached grows.fresh node_le index_eq stored.children.size)
  obtain ⟨total, at_parent, same⟩ := grows.item at_node index_eq grows_item
  have cut := cut_item grows_item index_eq node_le at_parent
  -- detaching takes away the last child, which is the node of the item, and all below it
  have total_cut : origin.Grows (after.apply (.detach node)) [node] low count' :=
    total.cut List.mem_cons_self cut (fun id later => Nat.lt_of_le_of_lt grows.le later)
      (fun child among => by
        rw [children_of_get at_parent]
        exact Array.mem_push.mpr (.inl among))
      (by rw [label?, at_parent]; rfl)
  refine ⟨total_cut, fun value matched => ?_⟩
  have same_cut : ∀ other, other ≠ node → other.index ≤ count →
      (after.apply (.detach node)).get? other = before.get? other :=
    fun other not_node old =>
      (cut.outside other not_node (Nat.not_lt.mpr old)).trans (same other not_node old)
  have all_kept := grows.items_congr at_node same_cut all
  rw [listed value matched, Value.eraseSpans, Value.erase_items_eq_map]
  exact decodes_of_shows cut.self (.list kind_eq all_kept)

/-- An item that matches shows its value behind the earlier ones. -/
theorem builds_further_item {earlier : List Value} {item : Value} (new : count + 1 < UInt32.size)
    (built : (before.apply (.attach node earlier.length (.afterCount count))).Fresh (count + 1) →
      body.BuildsValue labels (before.apply (.attach node earlier.length (.afterCount count)))
        middle (count + 1) count' (.matched item) (.afterCount count))
    (rest : middle.Fresh count' →
      body.BuildsItems labels middle after count' count'' outcome node (item :: earlier)) :
    body.BuildsItems labels before after count count'' outcome node earlier := by
  intro display origin low stored grows at_node kind_eq all
  have index_eq := index_afterCount new
  have node_le := (grows.own_le node List.mem_cons_self).trans grows.le
  have length_eq : earlier.length = stored.children.size := by
    simpa using all.length_eq.symm
  rw [length_eq] at built
  have attached := grows.attach List.mem_cons_self at_node index_eq
  obtain ⟨grows_item, item_shown⟩ := built attached.fresh display
    (clean_attached grows.fresh node_le index_eq stored.children.size)
  obtain ⟨total, at_parent, same⟩ := grows.item at_node index_eq grows_item
  refine rest total.fresh display origin low _ total at_parent kind_eq ?_
  rw [Array.toList_push, List.reverse_cons, List.map_append]
  exact List.rel_append (grows.items_congr at_node same all) (.cons (item_shown item rfl) .nil)

end

variable {program : Program} {task : Task} {count count' : Nat} {context : Context}
  {events : List Event} {reply : Reply} {labels : String → List String → Prop}

/-- The events of a derivation show the value that its task has; see the head of the module. -/
theorem Traced.builds
    (displays : ∀ rule body, program.rules.resolve? rule = some body → body.Displays labels)
    (h : Traced program task count context events count' reply) (bounded : count' < UInt32.size)
    {before : NodeTree} (fresh : before.Fresh count) {outcome : Outcome} {after : Context}
    (ended : reply = .ok outcome after) :
    task.Builds labels before (before.play events) count count' outcome := by
  induction h generalizing before outcome after with
  | @literal_hit text node count context cursor eaten =>
      cases ended
      refine ⟨fun _ clean => ?_, fun sequences => sequences.elim⟩
      obtain ⟨grows, shown⟩ := builds_leaf fresh clean text cursor
      refine ⟨grows, fun value matched => ?_⟩
      cases matched
      exact shown
  | @class_hit set node count context char cursor eaten =>
      cases ended
      refine ⟨fun _ clean => ?_, fun sequences => sequences.elim⟩
      obtain ⟨grows, shown⟩ := builds_leaf fresh clean (String.singleton char) cursor
      refine ⟨grows, fun value matched => ?_⟩
      cases matched
      exact shown
  | literal_miss | class_miss | never =>
      cases ended
      exact ⟨fun _ clean => ⟨.refl fresh clean (Nat.le_refl _), fun _ matched => by cases matched⟩,
        fun sequences => sequences.elim⟩
  | @stringify_hit body node count context events count' value middle inner ih =>
      cases ended
      -- the body works on a scratch node, so nothing of it comes into reach
      refine ⟨fun display clean => ?_, fun sequences => sequences.elim⟩
      have new : count + 1 < UInt32.size := Nat.lt_of_le_of_lt inner.count_le bounded
      have built := (ih bounded (fresh.mono (Nat.le_succ count)) rfl).1 display
        (clean_afterCount fresh new)
      obtain ⟨grows, no_child⟩ := built.1.scratch fresh clean new
      rw [play_append]
      refine ⟨grows.shows List.mem_cons_self _ _, fun value matched => ?_⟩
      cases matched
      exact decodes_shown_text no_child _
  | @stringify_pass body node count context events count' reply inner missed ih =>
      subst ended
      refine ⟨fun display clean => ?_, fun sequences => sequences.elim⟩
      have new : count + 1 < UInt32.size := Nat.lt_of_le_of_lt inner.count_le bounded
      have built := (ih bounded (fresh.mono (Nat.le_succ count)) rfl).1 display
        (clean_afterCount fresh new)
      refine ⟨(built.1.scratch fresh clean new).1, fun value matched => ?_⟩
      subst matched
      cases missed
  | optional_pass inner hit ih =>
      exact ⟨(ih bounded fresh ended).1, fun sequences => sequences.elim⟩
  | @optional_miss body node count context events count' captured middle inner ih =>
      cases ended
      refine ⟨fun display clean => ?_, fun sequences => sequences.elim⟩
      have built := (ih bounded fresh rfl).1 display clean
      -- the reset takes away what the body has shown
      obtain ⟨grows, at_node⟩ := built.1.reset List.mem_cons_self
      rw [play_append, play_append]
      refine ⟨grows.shows List.mem_cons_self _ _, fun value matched => ?_⟩
      cases matched
      exact decodes_shown_absent (children_of_get at_node) "null"
  | @repeated atLeastOne body node count context events count' reply items ih =>
      refine ⟨fun display clean => ?_, fun sequences => sequences.elim⟩
      have grows := (Grows.refl fresh clean (Nat.le_refl _)).shows List.mem_cons_self "[]" .list
      have no_child := (children_getD before node).trans (clean node List.mem_cons_self).2
      rw [play_append]
      refine ih bounded grows.fresh ended display before count _ grows (play_shows_self ..) rfl ?_
      show List.Forall₂ _ ((before.get? node).getD {}).children.toList _
      rw [no_child]
      exact .nil
  | unresolved | too_deep | items_fault | items_stuck => cases ended
  | @call rule body node count context events count' reply found below inner ih =>
      cases reply with
      | error fault after => cases ended
      | ok outcome after =>
          cases ended
          exact ⟨fun _ => (ih bounded fresh rfl).1 (displays rule body found),
            fun sequences => sequences.elim⟩
  | empty =>
      cases ended
      refine ⟨fun display => display.elim, fun _ stored node_le at_node leaf => ?_⟩
      obtain ⟨text, label, kind, children⟩ := stored
      subst leaf
      have clean := clean_of_get node_le at_node rfl
      refine ⟨.refl fresh clean (Nat.le_refl _), fun value matched => ?_⟩
      cases matched
      exact ⟨[], #[], rfl, at_node, [], rfl, .nil, rfl⟩
  | @append before_parts field part parts node count context events count' reply whole inner ih =>
      subst whole
      refine ⟨fun display => display.elim, ?_⟩
      rw [play_append]
      exact builds_fields fresh (Nat.lt_of_le_of_lt inner.count_le bounded)
        fun opened => ih bounded opened ended
  | orElse inner ih =>
      exact ⟨ih bounded fresh ended, fun sequences => sequences.elim⟩
  | @tagged rule body node count context events count' reply inner ih =>
      refine ⟨?_, fun sequences => sequences.elim⟩
      rw [play_cons, play_append, play_append]
      cases reply with
      | error fault after => cases ended
      | ok inner_outcome middle =>
          refine builds_record fresh (fun shown => (ih bounded shown rfl).2) ?_
          intro value matched
          cases inner_outcome <;> cases ended <;> cases matched
          exact ⟨_, _, rfl, rfl⟩
  | @untagged rule body node count context events count' reply inner ih =>
      refine ⟨fun display clean => ?_, fun sequences => sequences.elim⟩
      subst ended
      rw [play_cons, play_append]
      exact (ih bounded fresh rfl).1 display clean
  | located inner ih =>
      exact ⟨(ih bounded fresh ended).1, fun sequences => sequences.elim⟩
  | parts_empty =>
      cases ended
      refine fun _ _ clean => ⟨.refl fresh clean (Nat.le_refl _), fun value matched => ?_⟩
      cases matched
      exact ⟨[], [], rfl, .nil, rfl⟩
  | parts_head whole inner ih => exact fun sequences => absurd whole sequences.parts_ne
  | @parts_stop before_parts field part nodes node count context events count' reply inner missed
      ih =>
      subst ended
      intro sequences nodup clean
      have nodup_before := (List.nodup_append.mp nodup).1
      have clean_before : before.Clean nodes count :=
        fun id among => clean id (List.mem_append_left _ among)
      have built := ih bounded fresh rfl sequences.1 nodup_before clean_before
      refine ⟨built.1.widen clean fun id among => List.mem_append_left _ among, ?_⟩
      intro value matched
      subst matched
      cases missed
  | @parts_next before_parts field part nodes node count context events count' content middle more
      count'' reply first second ih ih' =>
      rw [play_append]
      cases reply with
      | error fault after => cases ended
      | ok part_outcome after =>
          have fewer := Nat.lt_of_le_of_lt second.count_le bounded
          refine builds_further_part (ih fewer fresh rfl)
            (fun grown => (ih' bounded grown rfl).1) first.length_nodes ?_
          intro value matched
          cases part_outcome <;> cases ended <;> cases matched
          exact ⟨_, rfl, rfl⟩
  | options_never =>
      cases ended
      exact fun _ clean =>
        ⟨.refl fresh clean (Nat.le_refl _), fun _ matched => by cases matched⟩
  | @options_head subject node count context events count' reply whole inner ih =>
      cases reply with
      | error fault after => cases ended
      | ok alternative_outcome middle =>
          intro display clean
          rw [play_cons, play_append, play_put_back]
          have built := builds_alternative (Grows.refl fresh clean (Nat.le_refl _)) display
            fun fresh => (ih bounded fresh rfl).1
          cases alternative_outcome <;> (cases ended; exact built)
  | options_stop inner hit ih =>
      exact fun display => ih bounded fresh ended display.1
  | @options_next before_options alternative node count context events count' captured middle more
      count'' reply first second ih ih' =>
      cases reply with
      | error fault after => cases ended
      | ok alternative_outcome after =>
          intro display clean
          have fewer := Nat.lt_of_le_of_lt second.count_le bounded
          rw [play_append, play_cons, play_append, play_put_back]
          have built := builds_alternative (ih fewer fresh rfl display.1 clean).1 display.2
            fun fresh => (ih' bounded fresh rfl).1
          cases alternative_outcome <;> (cases ended; exact built)
  | @items_end atLeastOne body node earlier count context events count' captured middle inner ih =>
      cases ended
      rw [play_cons, play_append]
      refine builds_last_item (Nat.lt_of_le_of_lt inner.count_le bounded)
        (fun attached => (ih bounded attached rfl).1) ?_
      intro value matched
      split at matched <;> cases matched
      rfl
  | @items_more atLeastOne body node earlier count context events count' item middle more count''
      reply first moves rest ih ih' =>
      have fewer := Nat.lt_of_le_of_lt rest.count_le bounded
      rw [play_cons, play_append]
      exact builds_further_item (Nat.lt_of_le_of_lt first.count_le fewer)
        (fun attached => (ih fewer attached rfl).1) fun grown => ih' bounded grown ended

end TracedGrammar

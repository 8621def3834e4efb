import TracedGrammar.Proofs.Display.Ascending
import TracedGrammar.Proofs.Display.Handles
import TracedGrammar.Proofs.Trace.Rollback
import TracedGrammar.Proofs.Trace.Termination

/-!
# Edits of the display tree are exact

A match does not look at the tree that its events build. Still each `attach` puts a new node behind
all children that its parent has by then, and each `detach` takes away the node of the item that a
repetition has just failed to match. `Event.Exact` says so of an event and the tree replayed from
the events before it.

Two facts about derivations lead there. The events of a task mention its own nodes and nodes with
handles given out in the meantime, and no others (`Traced.mentions`); and the node that an
expression is started on has nothing below it yet (`Task.Ready`). The induction that carries the
latter on is `Traced.exact`. The theorem to read first is `edits_of_session`.
-/

namespace TracedGrammar

/-- A node was attached for an item of a repetition, which was tried and did not match; nothing has
happened since. The attempt did not change the node of the repetition. -/
def FailedLast (program : Program) (earlier : List Event) (parent child : NodeId) : Prop :=
  ∃ first index attempt offset, earlier =
      first ++ .attach parent index child :: (attempt ++ [.rollback offset]) ∧
    (∀ event ∈ attempt, event.target? ≠ some parent) ∧
    ∃ body count context count' captured after, context.offset = offset ∧
      Traced program (.expr body child) count context attempt count' (.ok (.failed captured) after)

/-- An event fits the tree of the events before it. A node that is attached has a higher handle than
all nodes mentioned so far and becomes the last child of its parent; one that is detached was
attached for the failed last item of a repetition, and it is all that its parent loses. -/
def Event.Exact (program : Program) (earlier : List Event) : Event → Prop
  | attach parent index child =>
      (∀ id, Mentions earlier id → id.index < child.index) ∧ child ≠ .root ∧
        parent.index < child.index ∧ index = ((NodeTree.replay earlier).children parent).size
  | detach parent => ∃ child, FailedLast program earlier parent child ∧
      (NodeTree.replay earlier).Loses ((NodeTree.replay earlier).apply (.detach parent)) parent
        child
  | _ => True

/-- Each of some events that follow on earlier ones is exact. -/
def ExactAfter (program : Program) : (earlier events : List Event) → Prop
  | _, [] => True
  | earlier, event :: events =>
      event.Exact program earlier ∧ ExactAfter program (earlier ++ [event]) events

/-- What a task relies on: nothing is below the nodes of expressions, and the node of a repetition
has a child for each item so far. The alternatives of a choice reset their node themselves. -/
def Task.Ready (tree : NodeTree) : Task → Prop
  | .expr _ node => tree.children node = #[]
  | .parts _ nodes => nodes.Nodup ∧ ∀ node ∈ nodes, tree.children node = #[]
  | .options _ _ => True
  | .items _ _ node earlier => (tree.children node).size = earlier.length

/-- Some events, and the number of handles that had been given out by then. -/
structure Settled (earlier : List Event) (count : Nat) : Prop where
  index_le : ∀ id, Mentions earlier id → id.index ≤ count
  ascending : (NodeTree.replay earlier).Ascending

open NodeTree

namespace ExactAfter

variable {program : Program} {earlier events more : List Event} {event : Event}

theorem append (h : ExactAfter program earlier events)
    (h' : ExactAfter program (earlier ++ events) more) :
    ExactAfter program earlier (events ++ more) := by
  induction events generalizing earlier with
  | nil => rwa [List.append_nil] at h'
  | cons event events ih =>
      refine ⟨h.1, ih h.2 ?_⟩
      rwa [List.append_assoc, List.singleton_append]

theorem shows (node : NodeId) (text : String) (kind : NodeKind) :
    ExactAfter program earlier (Event.shows node text kind) :=
  ⟨trivial, trivial, trivial⟩

theorem closeRule (rule : String) (reply : Reply) :
    ExactAfter program earlier (Event.closeRule rule reply) := by
  cases reply with
  | ok outcome after => exact ⟨trivial, trivial⟩
  | error fault after => trivial

theorem putBack (start : Nat) (reply : Reply) :
    ExactAfter program earlier (Event.putBack start reply) := by
  unfold Event.putBack
  split
  · exact ⟨trivial, trivial⟩
  · trivial

theorem at_split {first later : List Event} (h : ExactAfter program earlier events)
    (split : events = first ++ event :: later) : event.Exact program (earlier ++ first) := by
  induction first generalizing earlier events with
  | nil =>
      subst split
      rw [List.append_nil]
      exact h.1
  | cons other first ih =>
      subst split
      have rest := ih h.2 rfl
      rwa [List.append_assoc, List.singleton_append] at rest

/-- Exact attachments are to nodes with lower handles. -/
theorem index_lt {parent child : NodeId} {index : Nat} (h : ExactAfter program earlier events)
    (among : .attach parent index child ∈ events) : parent.index < child.index := by
  obtain ⟨first, later, split⟩ := List.append_of_mem among
  exact (h.at_split split).2.2.1

/-- Exact events build a forest. -/
theorem forest (h : ExactAfter program [] events) : (NodeTree.replay events).IsForest := by
  refine NodeTree.forest_of_fresh fun earlier parent index child later split => ?_
  obtain ⟨higher, not_root, up, -⟩ := h.at_split split
  rw [List.nil_append] at higher
  refine ⟨not_root, fun same => ?_, fun mentioned => Nat.lt_irrefl _ (higher child mentioned)⟩
  exact Nat.lt_irrefl _ (same ▸ up)

theorem of_append (h : ExactAfter program earlier (events ++ more)) :
    ExactAfter program earlier events := by
  induction events generalizing earlier with
  | nil => trivial
  | cons event events ih => exact ⟨h.1, ih h.2⟩

end ExactAfter

section

variable {program : Program} {earlier events : List Event} {node id : NodeId}
  {nodes : List NodeId} {count count' number : Nat} {parts : List (Option String × Expr)}

namespace Settled

theorem more (h : Settled earlier count) (le : count ≤ count') : Settled earlier count' :=
  ⟨fun id mentioned => (h.index_le id mentioned).trans le, h.ascending⟩

/-- Events that mention no other handles than those given out, and attach nodes to lower ones. -/
theorem after (h : Settled earlier count) (le : count ≤ count')
    (up : ∀ parent index child, .attach parent index child ∈ events → parent.index < child.index)
    (within : ∀ id, Mentions events id → id.index ≤ count') :
    Settled (earlier ++ events) count' where
  index_le id mentioned := by
    rcases mentions_append_iff.mp mentioned with old | new
    · exact (h.index_le id old).trans le
    · exact within id new
  ascending parent child listed := by
    rw [replay_append] at listed
    rcases isChild_play listed with old | ⟨index, attached⟩
    · exact h.ascending parent child old
    · exact up parent index child attached

/-- Nothing is below a node that was not given out yet. -/
theorem children_eq (h : Settled earlier count) (new : count < id.index) :
    (replay earlier).children id = #[] := by
  refine Array.eq_empty_iff_forall_not_mem.mpr fun child listed => ?_
  exact absurd (h.index_le id (mentions_of_isChild listed).1) (Nat.not_le.mpr new)

/-- Attaching the next node behind the children of another one is exact. -/
theorem exact_attach (h : Settled earlier count) (fits : count + 1 < UInt32.size)
    (node_le : node.index ≤ count) (size_eq : ((replay earlier).children node).size = number) :
    (Event.attach node number (.afterCount count)).Exact program earlier := by
  have index_eq := index_afterCount fits
  refine ⟨fun id mentioned => ?_, fun root => ?_, ?_, size_eq.symm⟩
  · have := h.index_le id mentioned
    omega
  · rw [root] at index_eq
    cases index_eq
  · omega

/-- The node that was attached has nothing below it, and its parent has one child more. -/
theorem attach (h : Settled earlier count) (fits : count + 1 < UInt32.size)
    (node_le : node.index ≤ count) (size_eq : ((replay earlier).children node).size = number) :
    let attached := earlier ++ [.attach node number (.afterCount count)]
    Settled attached (count + 1) ∧ (replay attached).children (.afterCount count) = #[] ∧
      ∃ stored : DisplayNode, stored.children.size = number ∧ (replay attached).get? node =
        some { stored with children := stored.children.push (.afterCount count) } := by
  intro attached
  have index_eq := index_afterCount fits
  have other : node ≠ .afterCount count := by
    rintro rfl
    omega
  refine ⟨h.after (Nat.le_succ count) (fun parent index child among => ?_)
    fun id mentioned => ?_, ?_, ?_⟩
  · cases List.mem_singleton.mp among
    omega
  · simp only [mentions_cons_iff, Event.handles, List.mem_cons, List.not_mem_nil, or_false,
      not_mentions_nil] at mentioned
    rcases mentioned with rfl | rfl
    · exact node_le.trans (Nat.le_succ count)
    · exact index_eq.le
  · rw [replay_concat, children_attach_of_ne other.symm]
    exact h.children_eq (by omega)
  · refine ⟨{ ((replay earlier).get? node).getD {} with
      children := (replay earlier).children node }, size_eq, ?_⟩
    rw [replay_concat, ← size_eq]
    exact get_attach_last other

/-- Opening the parts of a sequence is exact if the node of the sequence has as many children as the
index tells where it begins. -/
theorem exact_openParts (h : Settled earlier count) (fits : count + parts.length < UInt32.size)
    (node_le : node.index ≤ count) (size_eq : ((replay earlier).children node).size = number) :
    ExactAfter program earlier (Event.openParts node number count parts) := by
  induction parts generalizing earlier count number with
  | nil => trivial
  | cons part parts ih =>
      obtain ⟨field, subject⟩ := part
      rw [List.length_cons] at fits
      cases field with
      | none => exact ih (h.more (Nat.le_succ count)) (by omega) (by omega) size_eq
      | some label =>
          have fits_next : count + 1 < UInt32.size := by omega
          obtain ⟨attached, -, stored, stored_eq, at_node⟩ := h.attach fits_next node_le size_eq
          have labelled : Settled (earlier ++ [.attach node number (.afterCount count)] ++
              [.setLabel (.afterCount count) label]) (count + 1) := by
            refine attached.after (Nat.le_refl _) (by simp) fun id mentioned => ?_
            simp only [mentions_cons_iff, Event.handles, Event.target?, Option.toList,
              List.mem_singleton, not_mentions_nil, or_false] at mentioned
            exact (mentioned ▸ index_afterCount fits_next).le
          refine ⟨h.exact_attach fits_next node_le size_eq, trivial,
            ih labelled (by omega) (by omega) ?_⟩
          have kept := fun tree => @children_update_of_kept tree (.afterCount count)
            ({ · with label := some label }) (fun _ => rfl) node
          rw [replay_concat, apply, kept, children_of_get at_node, Array.size_push, stored_eq]

/-- The nodes opened for the parts of a sequence have nothing below them. -/
theorem open_parts (h : Settled earlier count) (fits : count + parts.length < UInt32.size)
    (node_le : node.index ≤ count) (size_eq : ((replay earlier).children node).size = number) :
    let opened := earlier ++ Event.openParts node number count parts
    Settled opened (count + parts.length) ∧
      ∀ id ∈ NodeId.nextHandles count parts.length, (replay opened).children id = #[] := by
  intro opened
  refine ⟨h.after (by omega) (fun parent index child attached => ?_) fun id mentioned => ?_,
    fun id among => ?_⟩
  · obtain ⟨rfl, among⟩ := attach_of_openParts attached
    have := (mem_next_handles fits among).1
    omega
  · rcases mentions_openParts mentioned with rfl | among
    · omega
    · exact (mem_next_handles fits among).2
  · have new := (mem_next_handles fits among).1
    rw [replay_append]
    refine children_play_eq_empty (h.children_eq new) fun index child attached => ?_
    obtain ⟨rfl, -⟩ := attach_of_openParts attached
    omega

/-- The next node may be worked on without being attached. -/
theorem next (h : Settled earlier count) (fits : count + 1 < UInt32.size) :
    Settled earlier (count + 1) ∧ (∀ id ∈ [NodeId.afterCount count], id.index ≤ count + 1) ∧
      (replay earlier).children (.afterCount count) = #[] := by
  have index_eq := index_afterCount fits
  exact ⟨h.more (Nat.le_succ count), by simp [index_eq], h.children_eq (by omega)⟩

/-- Events that attach nothing leave nodes with nothing below them as they are. -/
theorem quiet (h : Settled earlier count)
    (no_attach : ∀ parent index child, .attach parent index child ∉ events)
    (within : ∀ id, Mentions events id → id.index ≤ count) :
    Settled (earlier ++ events) count ∧ ∀ id, (replay earlier).children id = #[] →
      (replay (earlier ++ events)).children id = #[] := by
  refine ⟨h.after (Nat.le_refl _) (fun parent index child among => ?_) within,
    fun id none_below => ?_⟩
  · exact absurd among (no_attach parent index child)
  · rw [replay_append]
    exact children_play_eq_empty none_below (no_attach id)

/-- Events that are not about nodes leave the tree as it is. -/
theorem mark (h : Settled earlier count) (event : Event) (silent : event.handles = []) :
    Settled (earlier ++ [event]) count ∧ ∀ id, (replay earlier).children id = #[] →
      (replay (earlier ++ [event])).children id = #[] := by
  refine h.quiet (fun parent index child among => ?_) (by simp [silent])
  cases List.mem_singleton.mp among
  cases silent

theorem shows (h : Settled earlier count) (node_le : node.index ≤ count)
    (leaf : (replay earlier).children node = #[]) (text : String) (kind : NodeKind) :
    Settled (earlier ++ Event.shows node text kind) count ∧
      (replay (earlier ++ Event.shows node text kind)).children node = #[] := by
  obtain ⟨settled, kept⟩ := h.quiet (by simp [Event.shows]) fun id mentioned =>
    (((mentions_shows_iff text kind).mp mentioned) ▸ node_le : id.index ≤ count)
  exact ⟨settled, kept node leaf⟩

theorem reset (h : Settled earlier count) (node_le : node.index ≤ count) :
    Settled (earlier ++ [.reset node]) count ∧
      (replay (earlier ++ [.reset node])).children node = #[] := by
  refine ⟨(h.quiet (by simp) fun id mentioned => ?_).1, ?_⟩
  · simp only [mentions_cons_iff, Event.handles, Event.target?, Option.toList, List.mem_singleton,
      not_mentions_nil, or_false] at mentioned
    exact mentioned ▸ node_le
  · rw [replay_concat]
    exact children_reset

end Settled

namespace Traced

variable {task : Task} {body : Expr} {context : Context} {reply : Reply}

/-- A task with exact events ends in a settled trace. -/
theorem settled (h : Traced program task count context events count' reply)
    (bounded : count' < UInt32.size) (before : Settled earlier count)
    (nodes_le : ∀ id ∈ task.nodes, id.index ≤ count)
    (exact : ExactAfter program earlier events) : Settled (earlier ++ events) count' := by
  refine before.after h.count_le (fun _ _ _ => exact.index_lt) fun id mentioned => ?_
  rcases h.mentions bounded mentioned with own | new
  · exact (nodes_le id own).trans h.count_le
  · exact new.2

/-- A task attaches nothing to a node that is not its own. -/
theorem children_eq_empty (h : Traced program task count context events count' reply)
    (bounded : count' < UInt32.size) (old : id.index ≤ count) (foreign : id ∉ task.nodes)
    (none_below : (replay earlier).children id = #[]) :
    (replay (earlier ++ events)).children id = #[] := by
  rw [replay_append]
  refine children_play_eq_empty none_below fun index child attached => ?_
  rcases h.mentions bounded (mentions_of_attach attached).1 with own | new
  · exact foreign own
  · omega

/-- The events of an item leave the node of its repetition as it is, with the node of the item as
the last child. -/
theorem exact_item (h : Traced program (.expr body (.afterCount count)) (count + 1) context events
      count' reply) (bounded : count' < UInt32.size) (before : Settled earlier count)
    (node_le : node.index ≤ count) (size_eq : ((replay earlier).children node).size = number)
    (inner : ∀ attached, Settled attached (count + 1) →
      (replay attached).children (.afterCount count) = #[] → ExactAfter program attached events) :
    let tried := .attach node number (.afterCount count) :: events
    ExactAfter program earlier tried ∧ Settled (earlier ++ tried) count' ∧
      ∃ stored : DisplayNode, stored.children.size = number ∧
        (replay (earlier ++ tried)).get? node =
          some { stored with children := stored.children.push (.afterCount count) } := by
  intro tried
  have fits := Nat.lt_of_le_of_lt h.count_le bounded
  have index_eq := index_afterCount fits
  obtain ⟨attached, leaf, stored, stored_eq, at_node⟩ := before.attach fits node_le size_eq
  have exact := inner _ attached leaf
  have split : earlier ++ tried = earlier ++ [.attach node number (.afterCount count)] ++ events :=
    List.append_cons ..
  rw [split]
  refine ⟨⟨before.exact_attach fits node_le size_eq, exact⟩,
    h.settled bounded attached (by simp [Task.nodes, index_eq]) exact, stored, stored_eq, ?_⟩
  -- the attempt works on the node of the item and on later ones only
  rw [← at_node, replay_append]
  exact attached.ascending.get_play
    (fun id mentioned => (given_out_of_next h.count_le bounded (h.mentions bounded mentioned)).1)
    (fun _ _ _ => exact.index_lt) node_le

/-- The node of a failed item is detached exactly. -/
theorem exact_detach {captured : Option (Record Value)} {middle : Context}
    (h : Traced program (.expr body (.afterCount count)) (count + 1) context events count'
      (.ok (.failed captured) middle)) (bounded : count' < UInt32.size)
    (node_le : node.index ≤ count) {stored : DisplayNode}
    (tried : Settled (earlier ++ .attach node number (.afterCount count) :: events) count')
    (at_node : (replay (earlier ++ .attach node number (.afterCount count) :: events)).get? node =
      some { stored with children := stored.children.push (.afterCount count) }) :
    (Event.detach node).Exact program
      (earlier ++ .attach node number (.afterCount count) :: events ++
        [.rollback context.offset]) := by
  refine ⟨.afterCount count, ⟨earlier, number, events, context.offset, by simp, ?_, body, _,
    context, _, captured, middle, rfl, h⟩, ?_⟩
  · intro event among targets
    have mentioned : Mentions events node := ⟨event, among, Event.mem_handles_of_target targets⟩
    have := given_out_of_next h.count_le bounded (h.mentions bounded mentioned)
    omega
  · rw [replay_concat]
    exact tried.ascending.loses_detach at_node

/-- The events of a derivation are exact; see the head of the module. -/
theorem exact (h : Traced program task count context events count' reply)
    (bounded : count' < UInt32.size) (before : Settled earlier count)
    (nodes_le : ∀ id ∈ task.nodes, id.index ≤ count) (ready : task.Ready (replay earlier)) :
    ExactAfter program earlier events := by
  induction h generalizing earlier with
  | literal_miss | class_miss | unresolved | too_deep | empty | never | parts_empty
  | options_never => trivial
  | literal_hit | class_hit => exact ⟨trivial, trivial, trivial, trivial⟩
  | stringify_hit inner ih =>
      obtain ⟨settled, next_le, leaf⟩ := before.next (inner.count_le.trans_lt bounded)
      exact (ih bounded settled next_le leaf).append (.shows ..)
  | stringify_pass inner missed ih =>
      obtain ⟨settled, next_le, leaf⟩ := before.next (inner.count_le.trans_lt bounded)
      exact ih bounded settled next_le leaf
  | @optional_miss body node count context events count' captured after inner ih =>
      have undone : ExactAfter program (earlier ++ events)
          [.rollback context.offset, .reset node] := ⟨trivial, trivial, trivial⟩
      exact ((ih bounded before nodes_le ready).append undone).append (.shows ..)
  | repeated items ih =>
      obtain ⟨settled, leaf⟩ := before.shows (nodes_le _ List.mem_cons_self) ready "[]" .list
      exact (ExactAfter.shows ..).append (ih bounded settled nodes_le (congrArg Array.size leaf))
  | @append before_parts field part parts node count context events count' reply whole inner ih =>
      have fits := inner.count_le.trans_lt bounded
      have node_le := nodes_le node List.mem_cons_self
      have no_child := congrArg Array.size ready
      obtain ⟨settled, leaves⟩ := before.open_parts fits node_le no_child
      refine (before.exact_openParts fits node_le no_child).append (ih bounded settled ?_ ?_)
      · exact fun id among => (mem_next_handles fits among).2
      · exact ⟨nodup_next_handles fits, leaves⟩
  | @tagged rule body node count context events count' reply inner ih =>
      have node_le := nodes_le node List.mem_cons_self
      obtain ⟨entered, kept⟩ := before.mark (.ruleEnter rule) rfl
      obtain ⟨settled, leaf⟩ := entered.shows node_le (kept node ready) rule .record
      have within := (ExactAfter.shows ..).append (ih bounded settled nodes_le leaf)
      exact ⟨trivial, within.append (.closeRule ..)⟩
  | @untagged rule body node count context events count' reply inner ih =>
      obtain ⟨entered, kept⟩ := before.mark (.ruleEnter rule) rfl
      exact ⟨trivial, (ih bounded entered nodes_le (kept node ready)).append (.closeRule ..)⟩
  | @located span body node count context events count' reply inner ih =>
      obtain ⟨marked, kept⟩ := before.mark (.sourceSpan span) rfl
      exact ⟨trivial, ih bounded marked nodes_le (kept node ready)⟩
  | optional_pass _ _ ih | call _ _ _ ih => exact ih bounded before nodes_le ready
  | orElse _ ih | options_stop _ _ ih => exact ih bounded before nodes_le trivial
  | parts_head whole inner ih =>
      exact ih bounded before nodes_le (ready.2 _ List.mem_cons_self)
  | parts_stop first missed ih =>
      exact ih bounded before (fun id among => nodes_le id (List.mem_append_left _ among))
        ⟨(List.nodup_append.mp ready.1).1,
          fun id among => ready.2 id (List.mem_append_left _ among)⟩
  | @parts_next before_parts field part nodes node count context events count' value middle more
      count'' reply first second ih ih' =>
      have fewer := second.count_le.trans_lt bounded
      obtain ⟨nodup, -, apart⟩ := List.nodup_append.mp ready.1
      have last : node ∈ nodes ++ [node] := List.mem_append_right _ List.mem_cons_self
      have node_le := nodes_le node last
      have nodes_le : ∀ id ∈ nodes, id.index ≤ count :=
        fun id among => nodes_le id (List.mem_append_left _ among)
      have exact_before := ih fewer before nodes_le
        ⟨nodup, fun id among => ready.2 id (List.mem_append_left _ among)⟩
      have leaf := first.children_eq_empty fewer node_le
        (fun among => apart node among node List.mem_cons_self rfl) (ready.2 node last)
      refine exact_before.append (ih' bounded (first.settled fewer before nodes_le exact_before)
        (fun id among => ?_) leaf)
      cases List.mem_singleton.mp among
      exact node_le.trans first.count_le
  | @options_head subject node count context events count' reply whole inner ih =>
      obtain ⟨settled, leaf⟩ := before.reset (nodes_le node List.mem_cons_self)
      exact ⟨trivial, (ih bounded settled nodes_le leaf).append (.putBack ..)⟩
  | @options_next before_options alternative node count context events count' captured middle more
      count'' reply first second ih ih' =>
      have fewer := second.count_le.trans_lt bounded
      have exact_before := ih fewer before nodes_le trivial
      have later : ∀ id ∈ [node], id.index ≤ count' :=
        fun id among => (nodes_le id among).trans first.count_le
      obtain ⟨settled, leaf⟩ :=
        (first.settled fewer before nodes_le exact_before).reset (later node List.mem_cons_self)
      exact exact_before.append
        ⟨trivial, (ih' bounded settled later leaf).append (.putBack ..)⟩
  | items_fault inner ih | items_stuck inner _ ih =>
      have next_le := (before.next (inner.count_le.trans_lt bounded)).2.1
      exact (inner.exact_item bounded before (nodes_le _ List.mem_cons_self) ready
        fun attached settled leaf => ih bounded settled next_le leaf).1
  | @items_end atLeastOne body node earlier_items count context events count' captured after inner
      ih =>
      have node_le := nodes_le node List.mem_cons_self
      have next_le := (before.next (inner.count_le.trans_lt bounded)).2.1
      obtain ⟨exact_item, settled, stored, -, at_node⟩ := inner.exact_item bounded before node_le
        ready fun attached settled leaf => ih bounded settled next_le leaf
      exact exact_item.append
        ⟨trivial, inner.exact_detach bounded node_le settled at_node, trivial⟩
  | @items_more atLeastOne body node earlier_items count context events count' value middle more
      count'' reply first moves rest ih ih' =>
      have fewer := rest.count_le.trans_lt bounded
      have next_le := (before.next (first.count_le.trans_lt fewer)).2.1
      obtain ⟨exact_item, settled, stored, stored_eq, at_node⟩ := first.exact_item fewer before
        (nodes_le node List.mem_cons_self) ready
        fun attached settled leaf => ih fewer settled next_le leaf
      refine exact_item.append (ih' bounded settled (fun id among => ?_) ?_)
      · exact (nodes_le id among).trans ((Nat.le_succ count).trans first.count_le)
      · show (children _ node).size = _
        rw [children_of_get at_node, Array.size_push, stored_eq, List.length_cons]

end Traced

end

section

variable {program : Program} {start text : String} {events : List Event} {count : Nat}
  {reply : Reply}

theorem Session.EndsAfter.halted {session : Session} {origin : Machine} {total : Nat}
    (h : session.EndsAfter total) (running : session.Running origin []) :
    (session.after (total + 1)).halted = true := by
  cases Session.stage_after running (total + 1) with
  | running now =>
      have next := now.step
      rw [h.idle (total + 1) (Nat.lt_succ_self total)] at next
      exact next.halted
  | concluded now => exact now.halted
  | aborted fault now => exact now.halted_eq

end

end TracedGrammar

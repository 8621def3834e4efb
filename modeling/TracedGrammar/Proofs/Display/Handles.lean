import TracedGrammar.Proofs.Display.Forest
import TracedGrammar.Proofs.Display.Growth

/-!
# Which handles a match mentions

Handles are given out one after the other. A task gets nodes to work on, and takes further handles
for the parts and items that it comes to; those are the only ones that its events mention, whatever
its reply is.

Main statement: `Traced.mentions`.
-/

namespace TracedGrammar

/-- The nodes that a task is given to work on. -/
def Task.nodes : Task → List NodeId
  | .expr _ node | .options _ node | .items _ _ node _ => [node]
  | .parts _ nodes => nodes

open NodeTree

section

variable {program : Program} {events : List Event} {parent child node id : NodeId}
  {count count' : Nat} {parts : List (Option String × Expr)}

/-- Opening parts mentions their nodes and that of the sequence. -/
theorem mentions_openParts {named : Nat}
    (h : Mentions (Event.openParts node named count parts) id) :
    id = node ∨ id ∈ NodeId.nextHandles count parts.length := by
  induction parts generalizing named count with
  | nil => exact absurd h not_mentions_nil
  | cons part parts ih =>
      obtain ⟨field, subject⟩ := part
      rw [List.length_cons, next_handles_succ, List.mem_cons]
      cases field with
      | none => exact (ih h).imp_right .inr
      | some label =>
          simp only [Event.openParts, mentions_cons_iff, Event.handles, Event.target?,
            Option.toList_some, List.mem_cons, List.not_mem_nil, or_false] at h
          rcases h with (rfl | rfl) | rfl | later
          · exact .inl rfl
          · exact .inr (.inl rfl)
          · exact .inr (.inl rfl)
          · exact (ih later).imp_right .inr

/-- Opening parts attaches their nodes to that of the sequence. -/
theorem attach_of_openParts {named index : Nat}
    (h : .attach parent index child ∈ Event.openParts node named count parts) :
    parent = node ∧ child ∈ NodeId.nextHandles count parts.length := by
  induction parts generalizing named count with
  | nil => cases h
  | cons part parts ih =>
      obtain ⟨field, subject⟩ := part
      rw [List.length_cons, next_handles_succ, List.mem_cons]
      cases field with
      | none => exact (ih h).imp_right .inr
      | some label =>
          rcases List.mem_cons.mp h with same | h
          · cases same
            exact ⟨rfl, .inl rfl⟩
          · rcases List.mem_cons.mp h with same | h
            · cases same
            · exact (ih h).imp_right .inr

/-- What is among the next handle and later ones has been given out since. -/
theorem given_out_of_next (room : count + 1 ≤ count') (bounded : count' < UInt32.size)
    (h : id ∈ [NodeId.afterCount count] ∨ count + 1 < id.index ∧ id.index ≤ count') :
    count < id.index ∧ id.index ≤ count' := by
  have index_eq := index_afterCount (Nat.lt_of_le_of_lt room bounded)
  rcases h with next | later
  · cases List.mem_singleton.mp next
    omega
  · omega

/-- The events of a task mention its nodes and nodes with handles given out in the meantime. -/
theorem Traced.mentions {task : Task} {context : Context} {reply : Reply}
    (h : Traced program task count context events count' reply) (bounded : count' < UInt32.size)
    (mentioned : Mentions events id) :
    id ∈ task.nodes ∨ count < id.index ∧ id.index ≤ count' := by
  induction h with
  | literal_hit | class_hit => exact .inl (List.mem_singleton.mpr (mentions_leaf _ _ mentioned))
  | literal_miss | class_miss | unresolved | too_deep | empty | never | parts_empty
  | options_never => exact absurd mentioned not_mentions_nil
  | stringify_hit inner ih =>
      rcases mentions_append_iff.mp mentioned with within | shown
      · exact .inr (given_out_of_next inner.count_le bounded (ih bounded within))
      · exact .inl (List.mem_singleton.mpr ((mentions_shows_iff _ _).mp shown))
  | stringify_pass inner missed ih =>
      exact .inr (given_out_of_next inner.count_le bounded (ih bounded mentioned))
  | @optional_miss body node count context events count' captured after inner ih =>
      simp only [mentions_append_iff, mentions_cons_iff, mentions_shows_iff, Event.handles,
        Event.target?, Option.toList, List.not_mem_nil, List.mem_singleton, false_or,
        not_mentions_nil, or_false] at mentioned
      rcases mentioned with (within | rfl) | rfl
      · exact ih bounded within
      · exact .inl List.mem_cons_self
      · exact .inl List.mem_cons_self
  | repeated items ih =>
      rcases mentions_append_iff.mp mentioned with shown | within
      · exact .inl (List.mem_singleton.mpr ((mentions_shows_iff _ _).mp shown))
      · exact ih bounded within
  | @append before field part parts node count context events count' reply whole inner ih =>
      have fits := Nat.lt_of_le_of_lt inner.count_le bounded
      have le := inner.count_le
      have given_out (among : id ∈ NodeId.nextHandles count parts.length) :
          count < id.index ∧ id.index ≤ count' := by
        have new := mem_next_handles fits among
        omega
      rcases mentions_append_iff.mp mentioned with opened | within
      · exact (mentions_openParts opened).imp List.mem_singleton.mpr given_out
      · exact .inr ((ih bounded within).elim given_out (by omega))
  | @tagged rule body node count context events count' reply inner ih =>
      simp only [mentions_cons_iff, mentions_append_iff, mentions_shows_iff, Event.handles,
        Event.target?, Option.toList, List.not_mem_nil, not_mentions_closeRule, false_or,
        or_false] at mentioned
      rcases mentioned with rfl | within
      · exact .inl List.mem_cons_self
      · exact ih bounded within
  | untagged inner ih =>
      simp only [mentions_cons_iff, mentions_append_iff, Event.handles, Event.target?,
        Option.toList, List.not_mem_nil, not_mentions_closeRule, false_or, or_false] at mentioned
      exact ih bounded mentioned
  | located inner ih =>
      simp only [mentions_cons_iff, Event.handles, Event.target?, Option.toList, List.not_mem_nil,
        false_or] at mentioned
      exact ih bounded mentioned
  | optional_pass _ _ ih | call _ _ _ ih | orElse _ ih | parts_head _ _ ih
  | options_stop _ _ ih => exact ih bounded mentioned
  | parts_stop first missed ih =>
      exact (ih bounded mentioned).imp_left (List.mem_append_left _)
  | parts_next first second ih ih' =>
      have le := second.count_le
      have le' := first.count_le
      rcases mentions_append_iff.mp mentioned with before | within
      · rcases ih (le.trans_lt bounded) before with own | new
        · exact .inl (List.mem_append_left _ own)
        · exact .inr (by omega)
      · rcases ih' bounded within with own | new
        · exact .inl (List.mem_append_right _ own)
        · exact .inr (by omega)
  | options_head whole inner ih =>
      simp only [mentions_cons_iff, mentions_append_iff, Event.handles, Event.target?,
        Option.toList, List.mem_singleton, not_mentions_putBack, or_false] at mentioned
      rcases mentioned with rfl | within
      · exact .inl List.mem_cons_self
      · exact ih bounded within
  | options_next first second ih ih' =>
      have le := second.count_le
      have le' := first.count_le
      simp only [mentions_append_iff, mentions_cons_iff, Event.handles, Event.target?,
        Option.toList, List.mem_singleton, not_mentions_putBack, or_false] at mentioned
      rcases mentioned with before | rfl | within
      · exact (ih (le.trans_lt bounded) before).imp_right (by omega)
      · exact .inl List.mem_cons_self
      · exact (ih' bounded within).imp_right (by omega)
  | items_fault inner ih | items_stuck inner _ ih =>
      simp only [mentions_cons_iff, Event.handles, List.mem_cons, List.not_mem_nil,
        or_false] at mentioned
      rcases mentioned with (rfl | rfl) | within
      · exact .inl List.mem_cons_self
      · exact .inr (given_out_of_next inner.count_le bounded (.inl List.mem_cons_self))
      · exact .inr (given_out_of_next inner.count_le bounded (ih bounded within))
  | items_end inner ih =>
      simp only [mentions_cons_iff, mentions_append_iff, Event.handles, Event.target?,
        Option.toList, List.mem_cons, List.not_mem_nil, or_false, false_or,
        not_mentions_nil] at mentioned
      rcases mentioned with (rfl | rfl) | within | rfl
      · exact .inl List.mem_cons_self
      · exact .inr (given_out_of_next inner.count_le bounded (.inl List.mem_cons_self))
      · exact .inr (given_out_of_next inner.count_le bounded (ih bounded within))
      · exact .inl List.mem_cons_self
  | items_more first moves rest ih ih' =>
      have le := rest.count_le
      have le' := first.count_le
      simp only [mentions_cons_iff, mentions_append_iff, Event.handles, List.mem_cons,
        List.not_mem_nil, or_false] at mentioned
      rcases mentioned with (rfl | rfl) | within | later
      · exact .inl List.mem_cons_self
      · exact .inr ((given_out_of_next le' (le.trans_lt bounded)
          (.inl List.mem_cons_self)).imp_right le.trans')
      · exact .inr ((given_out_of_next le' (le.trans_lt bounded)
          (ih (le.trans_lt bounded) within)).imp_right le.trans')
      · exact (ih' bounded later).imp_right (by omega)

end

end TracedGrammar

import TracedGrammar.Proofs.Trace.Derivation

/-!
# Rules end in the reverse order of their starts

The starts and ends of rules in a trace are brackets. Whatever a match that came to its end has
tried on the way, the events of it are `Balanced`: only a fault leaves rules open.

Main statement: `Traced.balanced`.
-/

namespace TracedGrammar

/-- Whether an event is the start or the end of a rule. -/
def Event.isBracket : Event → Bool
  | ruleEnter _ | ruleExit _ => true
  | _ => false

/-- Each rule that starts in the events ends in them, after all rules in between have. -/
inductive Balanced : List Event → Prop where
  | nil : Balanced []
  | plain {event events} (plain : event.isBracket = false) (rest : Balanced events) :
      Balanced (event :: events)
  | rule {rule inner rest} (within : Balanced inner) (after : Balanced rest) :
      Balanced (.ruleEnter rule :: (inner ++ .ruleExit rule :: rest))

theorem Event.plain_openParts (node : NodeId) (named count : Nat)
    (parts : List (Option String × Expr)) :
    ∀ event ∈ Event.openParts node named count parts, event.isBracket = false := by
  induction parts generalizing named count with
  | nil => simp [Event.openParts]
  | cons part parts ih =>
      obtain ⟨field, subject⟩ := part
      cases field with
      | none => exact ih named (count + 1)
      | some label => simpa [Event.openParts, Event.isBracket] using ih (named + 1) (count + 1)

namespace Balanced

variable {events first second : List Event} {rule : String}

theorem append (h : Balanced first) (h' : Balanced second) : Balanced (first ++ second) := by
  induction h with
  | nil => exact h'
  | plain plain _ ih => exact .plain plain ih
  | rule within _ _ ih =>
      rw [List.cons_append, List.append_assoc, List.cons_append]
      exact .rule within ih

theorem of_plain (plain : ∀ event ∈ events, event.isBracket = false) : Balanced events := by
  induction events with
  | nil => exact .nil
  | cons event events ih =>
      have rest := ih fun other among => plain other (.tail _ among)
      exact .plain (plain event List.mem_cons_self) rest

/-- The events of a rule with its body. -/
theorem closed (h : Balanced events) (rule : String) :
    Balanced (.ruleEnter rule :: (events ++ [.ruleExit rule])) :=
  .rule h .nil

theorem shows (node : NodeId) (text : String) (kind : NodeKind) :
    Balanced (Event.shows node text kind) :=
  of_plain (by simp [Event.shows, Event.isBracket])

theorem leaf (node : NodeId) (text : String) (after : Cursor) :
    Balanced (Event.leaf node text after) :=
  (shows ..).append (of_plain (by simp [Event.isBracket]))

theorem putBack (start : Nat) (reply : Reply) : Balanced (Event.putBack start reply) := by
  unfold Event.putBack
  split
  · exact of_plain (by simp [Event.isBracket])
  · exact .nil

theorem openParts (node : NodeId) (named count : Nat) (parts : List (Option String × Expr)) :
    Balanced (Event.openParts node named count parts) :=
  of_plain (Event.plain_openParts node named count parts)

end Balanced

/-- The events of a match that came to its end are balanced, whether it matched or not. -/
theorem Traced.balanced {program : Program} {task : Task} {count count' : Nat} {context : Context}
    {events : List Event} {reply : Reply}
    (h : Traced program task count context events count' reply) {outcome : Outcome}
    {after : Context} (ended : reply = .ok outcome after) : Balanced events := by
  induction h generalizing outcome after with
  | literal_hit | class_hit => exact .leaf ..
  | literal_miss | class_miss | empty | never | parts_empty | options_never => exact .nil
  | unresolved | too_deep | items_fault | items_stuck => cases ended
  | stringify_hit inner ih => exact (ih rfl).append (.shows ..)
  | optional_miss inner ih =>
      exact ((ih rfl).append (.of_plain (by simp [Event.isBracket]))).append (.shows ..)
  | repeated items ih => exact (Balanced.shows ..).append (ih ended)
  | @call _ _ _ _ _ _ _ reply found below inner ih =>
      cases reply with
      | ok outcome middle => exact ih rfl
      | error fault middle => cases ended
  | append whole inner ih => exact (Balanced.openParts ..).append (ih ended)
  | @tagged _ _ _ _ _ _ _ reply inner ih =>
      cases reply with
      | ok outcome middle => exact ((Balanced.shows ..).append (ih rfl)).closed _
      | error fault middle => cases ended
  | @untagged _ _ _ _ _ _ _ reply inner ih =>
      subst ended
      exact (ih rfl).closed _
  | located inner ih => exact .plain rfl (ih ended)
  | stringify_pass _ _ ih | optional_pass _ _ ih | orElse _ ih | parts_head _ _ ih
  | parts_stop _ _ ih | options_stop _ _ ih => exact ih ended
  | @parts_next _ _ _ _ _ _ _ _ _ _ _ _ _ reply first second ih ih' =>
      cases reply with
      | ok outcome middle => exact (ih rfl).append (ih' rfl)
      | error fault middle => cases ended
  | @options_head _ _ _ _ _ _ reply whole inner ih =>
      cases reply with
      | ok outcome middle => exact .plain rfl ((ih rfl).append (.putBack ..))
      | error fault middle => cases ended
  | @options_next _ _ _ _ _ _ _ _ _ _ _ reply first second ih ih' =>
      cases reply with
      | ok outcome middle =>
          exact (ih rfl).append (.plain rfl ((ih' rfl).append (.putBack ..)))
      | error fault middle => cases ended
  | items_end inner ih =>
      exact .plain rfl ((ih rfl).append (.of_plain (by simp [Event.isBracket])))
  | items_more first moves rest ih ih' => exact .plain rfl ((ih rfl).append (ih' ended))

end TracedGrammar

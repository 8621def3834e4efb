import Mathlib.Logic.Relation
import TracedGrammar.Proofs.Trace.Derivation
import TracedGrammar.Trace.Work

/-!
# The stepping machine follows derivations

`Machine.Reaches` is what a machine does in any number of units of work while its events stay in the
queue. The main statement, `Traced.runs`, says that a machine that starts a task with a derivation
queues exactly the events of the derivation and then stands where the reply says: with the task's
frames gone, the flag set to the outcome, and the cursor moved, or before a unit that ends in the
fault of the reply.

The budget of a repetition never runs out on the way, since each item leaves fewer characters.
-/

namespace TracedGrammar

namespace Machine

/-- One unit of work: the frame on top is taken off the stack and done. -/
def Advances (program : Program) (machine after : Machine) : Prop :=
  ∃ frame stack, machine.stack = frame :: stack ∧
    { machine with stack }.advance program frame = .ok after

/-- Any number of units of work. -/
def Reaches (program : Program) : Machine → Machine → Prop :=
  Relation.ReflTransGen (Advances program)

/-- The next unit of work ends in a fault. -/
def Faults (program : Program) (machine : Machine) (fault : Fault) : Prop :=
  ∃ frame stack, machine.stack = frame :: stack ∧
    { machine with stack }.advance program frame = .error fault

/-- The machine at a later time, with the same frames left to do. -/
def moved (machine : Machine) (context : Context) (events : List Event) (allocated : Nat)
    (matched : Bool) : Machine :=
  { machine with
    context
    outbox := machine.outbox ++ events
    emitted := machine.emitted + events.length
    matched
    allocated }

section

variable {program : Program} {machine first after : Machine} {frame : Frame} {context : Context}
  {events : List Event} {count : Nat} {matched : Bool}

theorem moved_moved (later : Context) (more : List Event) (count' : Nat) (matched' : Bool) :
    (machine.moved context events count matched).moved later more count' matched' =
      machine.moved later (events ++ more) count' matched' := by
  simp only [moved, List.append_assoc, List.length_append, Nat.add_assoc]

theorem moved_finish (matched' : Bool) :
    (machine.moved context events count matched).finish matched' =
      machine.moved context events count matched' :=
  rfl

theorem finish_eq_moved :
    machine.finish matched = machine.moved machine.context [] machine.allocated matched := by
  simp only [moved, finish, List.append_nil, List.length_nil, Nat.add_zero]

theorem leaf_eq_moved (node : NodeId) (text : String) (after : Cursor) :
    machine.leaf node (some (text, after)) =
      machine.moved (machine.context.restore after) (Event.leaf node text after)
        machine.allocated true := by
  simp only [leaf, display, emit, finish, moved, Event.leaf, Event.shows, List.append_assoc,
    List.length_append, Nat.add_assoc]

theorem moved_emit (more : List Event) :
    (machine.moved context events count matched).emit more =
      machine.moved context (events ++ more) count matched := by
  simp only [moved, emit, List.append_assoc, List.length_append, Nat.add_assoc]

theorem emit_moved (more : List Event) :
    (machine.emit more).moved context events count matched =
      machine.moved context (more ++ events) count matched := by
  simp only [moved, emit, List.append_assoc, List.length_append, Nat.add_assoc]

theorem moved_rollback (start : Cursor) :
    (machine.moved context events count matched).rollback start =
      machine.moved (context.restore start) (events ++ [.rollback start.offset]) count matched := by
  simp only [moved, rollback, emit, List.append_assoc, List.length_append, Nat.add_assoc]

theorem moved_display (node : NodeId) (text : String) (kind : NodeKind) :
    (machine.moved context events count matched).display node text kind =
      machine.moved context (events ++ Event.shows node text kind) count matched :=
  moved_emit _

/-- Doing the frame on top is one unit of work. -/
theorem advances_push (h : machine.advance program frame = .ok after) :
    Advances program (machine.push frame) after :=
  ⟨frame, machine.stack, rfl, h⟩

theorem faults_push {fault : Fault} (h : machine.advance program frame = .error fault) :
    Faults program (machine.push frame) fault :=
  ⟨frame, machine.stack, rfl, h⟩

/-- Once all above a frame is done, the frame is. -/
theorem Reaches.resume
    (h : Reaches program first ((machine.push frame).moved context events count matched))
    (next : (machine.moved context events count matched).advance program frame = .ok after) :
    Reaches program first after :=
  h.tail (advances_push next)

end

/-- How a machine that started as `first` ends a task with the given events and reply, where `base`
is the machine without the frames of the task. -/
def Ends (program : Program) (first base : Machine) (events : List Event) (count : Nat) :
    Reply → Prop
  | .ok outcome after =>
      Reaches program first (base.moved after events count outcome.isMatch)
  | .error fault _ =>
      ∃ last, Reaches program first last ∧ last.Faults program fault ∧
        last.outbox = base.outbox ++ events ∧ last.allocated = count

/-- Units of work before the others. -/
theorem Ends.after {program : Program} {first second base : Machine} {events : List Event}
    {count : Nat} {reply : Reply} (reached : Reaches program first second)
    (h : Ends program second base events count reply) :
    Ends program first base events count reply := by
  cases reply with
  | ok outcome after => exact reached.trans h
  | error fault after =>
      obtain ⟨last, later, faults, queued⟩ := h
      exact ⟨last, reached.trans later, faults, queued⟩

/-- A task that the machine queued events for and gave out handles for at first. -/
theorem Ends.after_events {program : Program} {first base : Machine} {context : Context}
    {events more : List Event} {count count' : Nat} {matched : Bool} {reply : Reply}
    (h : Ends program first (base.moved context events count matched) more count' reply) :
    Ends program first base (events ++ more) count' reply := by
  cases reply with
  | ok outcome after =>
      rw [Ends, ← moved_moved]
      exact h
  | error fault after =>
      obtain ⟨last, reached, faults, queued, allocated⟩ := h
      exact ⟨last, reached, faults, by rw [queued, moved, List.append_assoc], allocated⟩

/-- Of the machine below a task that ends in a fault only the queue counts. -/
theorem Ends.of_fault {program : Program} {first base other : Machine} {events more : List Event}
    {count : Nat} {fault : Fault} {after after' : Context}
    (h : Ends program first base events count (.error fault after))
    (same : base.outbox ++ events = other.outbox ++ more) :
    Ends program first other more count (.error fault after') := by
  obtain ⟨last, reached, faults, queued, allocated⟩ := h
  exact ⟨last, reached, faults, queued.trans same, allocated⟩

/-- A rule reports its end once its body has ended. -/
theorem Ends.close_rule {program : Program} {first base : Machine} {rule : String}
    {events : List Event} {count : Nat} {reply : Reply}
    (h : Ends program first (base.push (.ruleExit rule)) events count reply) :
    Ends program first base (events ++ Event.closeRule rule reply) count reply := by
  cases reply with
  | ok outcome after =>
      have done := Reaches.resume h rfl
      rw [moved_emit] at done
      exact done
  | error fault after => exact h.of_fault (by rw [Event.closeRule, List.append_nil]; rfl)

/-- The value of a rule is no matter of the machine. -/
theorem Ends.tag {program : Program} {first base : Machine} {events : List Event} {count : Nat}
    {reply : Reply} (rule : String) (start : Nat) (h : Ends program first base events count reply) :
    Ends program first base events count (reply.tag rule start) := by
  rcases reply with ⟨value | captured, after⟩ | ⟨fault, after⟩
  · exact h
  · exact h
  · exact h

/-- Giving nodes to the parts of a sequence queues the events of opening them. -/
theorem open_parts_eq (node : NodeId) (named : Nat) (parts : List (Option String × Expr))
    (machine : Machine) :
    machine.openParts node named parts =
      ((parts.map (·.2)).zip (NodeId.nextHandles machine.allocated parts.length),
        machine.moved machine.context (Event.openParts node named machine.allocated parts)
          (machine.allocated + parts.length) machine.matched) := by
  induction parts generalizing named machine with
  | nil => simp [openParts, Event.openParts, NodeId.nextHandles, moved]
  | cons part parts ih =>
      obtain ⟨field, expr⟩ := part
      cases field with
      | none =>
          simp only [openParts, allocate, ih]
          simp [Event.openParts, NodeId.nextHandles, moved, List.range'_succ, Nat.add_comm 1,
            Nat.add_assoc]
      | some label =>
          simp only [openParts, allocate, emit, ih]
          simp [Event.openParts, NodeId.nextHandles, moved, List.range'_succ, Nat.add_comm 1,
            Nat.add_assoc]
          omega

end Machine

namespace Machine

/-- How a machine ends parts of a sequence that others follow. The flag says that they matched if
any are `present`. -/
def EndsParts (program : Program) (first base : Machine) (events : List Event) (count : Nat)
    (present : Prop) (pending : List (Expr × NodeId)) : Reply → Prop
  | .ok (.matched _) after => ∃ matched, (present → matched = true) ∧
      Reaches program first ((base.moved after events count matched).nextPart pending)
  | reply => Ends program first base events count reply

/-- How a machine ends the parts of a whole sequence. -/
theorem EndsParts.ends {program : Program} {first base : Machine} {events : List Event}
    {count : Nat} {present : Prop} {reply : Reply} (is_present : present)
    (h : EndsParts program first base events count present [] reply) :
    Ends program first base events count reply := by
  rcases reply with ⟨value | captured, after⟩ | ⟨fault, after⟩
  · obtain ⟨matched, flag, reached⟩ := h
    rw [flag is_present] at reached
    exact reached
  · exact h
  · exact h

/-- Parts before the others. -/
theorem EndsParts.after {program : Program} {first second base : Machine} {context : Context}
    {events more : List Event} {count count' : Nat} {matched : Bool} {present : Prop}
    {pending : List (Expr × NodeId)} {reply : Reply} (value : Value) (field : Option String)
    (reached : Reaches program first second)
    (h : EndsParts program second (base.moved context events count matched) more count' present
      pending reply) :
    EndsParts program first base (events ++ more) count' present pending
      (reply.join value field) := by
  rcases reply with ⟨item | captured, after⟩ | ⟨fault, after⟩
  · obtain ⟨flag, matches_some, later⟩ := h
    rw [moved_moved] at later
    exact ⟨flag, matches_some, reached.trans later⟩
  · have ended : Ends program second _ more count' (.ok (.failed captured) after) := h
    exact ended.after_events.after reached
  · have ended : Ends program second _ more count' (.error fault after) := h
    exact ended.after_events.after reached

/-- How a machine ends alternatives of a choice that others follow. The flag says that they did not
match if any are `present`. -/
def EndsOptions (program : Program) (first base : Machine) (events : List Event) (count : Nat)
    (present : Prop) (node : NodeId) (start : Cursor) (opened : Nat) (pending : List Expr) :
    Reply → Prop
  | .ok (.failed _) after => ∃ matched, (present → matched = false) ∧
      Reaches program first
        ((base.moved after events count matched).nextAlternative node start opened pending)
  | reply => Ends program first base events count reply

/-- How a machine ends the alternatives of a whole choice. -/
theorem EndsOptions.ends {program : Program} {first base : Machine} {events : List Event}
    {count : Nat} {present : Prop} {node : NodeId} {start : Cursor} {opened : Nat} {reply : Reply}
    (is_present : present)
    (h : EndsOptions program first base events count present node start opened [] reply) :
    Ends program first base events count reply := by
  rcases reply with ⟨value | captured, after⟩ | ⟨fault, after⟩
  · exact h
  · obtain ⟨matched, flag, reached⟩ := h
    rw [flag is_present] at reached
    exact reached
  · exact h

/-- Alternatives before the others. -/
theorem EndsOptions.after {program : Program} {first second base : Machine} {context : Context}
    {events more : List Event} {count count' : Nat} {matched : Bool} {present : Prop}
    {node : NodeId} {start : Cursor} {opened : Nat} {pending : List Expr} {reply : Reply}
    (reached : Reaches program first second)
    (h : EndsOptions program second (base.moved context events count matched) more count' present
      node start opened pending reply) :
    EndsOptions program first base (events ++ more) count' present node start opened pending
      reply := by
  rcases reply with ⟨value | captured, after⟩ | ⟨fault, after⟩
  · have ended : Ends program second _ more count' (.ok (.matched value) after) := h
    exact ended.after_events.after reached
  · obtain ⟨flag, fails_some, later⟩ := h
    rw [moved_moved] at later
    exact ⟨flag, fails_some, reached.trans later⟩
  · have ended : Ends program second _ more count' (.error fault after) := h
    exact ended.after_events.after reached

end Machine

/-- The parts of a sequence with their nodes, as the machine keeps them. -/
def Expr.partSteps (expr : Expr) (nodes : List NodeId) : List (Expr × NodeId) :=
  (expr.parts.map (·.2)).zip nodes

/-- What a machine does about a task, where `machine` stands without the frames of the task. -/
def Task.Runs (program : Program) (machine : Machine) (events : List Event) (count : Nat)
    (reply : Reply) : Task → Prop
  | .expr subject node =>
      Machine.Ends program (machine.push (.enter subject node)) machine events count reply
  | .parts subject nodes => ∀ pending : List (Expr × NodeId),
      Machine.EndsParts program (machine.nextPart (subject.partSteps nodes ++ pending)) machine
        events count (nodes ≠ []) pending reply
  | .options subject node => ∀ (opened : Nat) (pending : List Expr),
      Machine.EndsOptions program
        (machine.nextAlternative node machine.context.cursor opened
          (subject.alternatives ++ pending)) machine events count (subject.alternatives ≠ []) node
        machine.context.cursor opened pending reply
  | .items atLeastOne body node earlier => ∀ budget : Nat,
      machine.context.cursor.rest.length ≤ budget →
        Machine.Ends program (machine.attempt atLeastOne body node earlier.length budget) machine
          events count reply

namespace Machine

variable {program : Program} {machine second : Machine} {events : List Event}
  {count : Nat} {reply : Reply} {subject : Expr} {node : NodeId}

/-- Starting an expression is the first unit of work about it. -/
theorem runs_of_enter (h : machine.enter program subject node = .ok second)
    (rest : Ends program second machine events count reply) :
    (Task.expr subject node).Runs program machine events count reply :=
  rest.after (Relation.ReflTransGen.single (advances_push h))

/-- An expression that is done in one unit of work. -/
theorem runs_at_once {outcome : Outcome} {after : Context}
    (h : machine.enter program subject node =
      .ok (machine.moved after events count outcome.isMatch)) :
    (Task.expr subject node).Runs program machine events count (.ok outcome after) :=
  Relation.ReflTransGen.single (advances_push h)

/-- An expression that is at fault at once. -/
theorem runs_at_fault {fault : Fault} {after : Context}
    (h : machine.enter program subject node = .error fault) :
    (Task.expr subject node).Runs program machine [] machine.allocated (.error fault after) :=
  ⟨_, Relation.ReflTransGen.refl, faults_push h, (List.append_nil _).symm, rfl⟩

/-- A call runs the body of its rule one level deeper, under the frame that closes it. -/
theorem runs_call {rule : String} {body : Expr}
    (found : program.rules.resolve? rule = some body)
    (below : machine.context.depth < program.maxDepth)
    (h : (Task.expr body node).Runs program
      ({ machine with context := { machine.context with depth := machine.context.depth + 1 } }.push
        .callReturn) events count reply) :
    (Task.expr (.call rule) node).Runs program machine events count reply.exitRule := by
  have entered : machine.context.enterRule program.maxDepth rule =
      .ok { machine.context with depth := machine.context.depth + 1 } := by
    rw [Context.enterRule, if_neg (Nat.not_le_of_lt below)]
  refine runs_of_enter (by rw [enter, found]; simp only [entered]; rfl) ?_
  cases reply with
  | ok outcome after => exact Reaches.resume h rfl
  | error fault after => exact h

/-- The next part of a sequence runs under the frame that starts the one after it. -/
theorem ends_part {pending : List (Expr × NodeId)} {present : Prop}
    (h : (Task.expr subject node).Runs program (machine.push (.sequence pending)) events count
      reply) :
    EndsParts program (machine.nextPart ((subject, node) :: pending)) machine events count present
      pending reply := by
  rcases reply with ⟨value | captured, after⟩ | ⟨fault, after⟩
  · exact ⟨true, fun _ => rfl, Reaches.resume h rfl⟩
  · exact Reaches.resume h rfl
  · exact h

/-- The next alternative of a choice runs under the frame that starts the one after it. -/
theorem ends_option {start : Cursor} {opened : Nat} {pending : List Expr} {present : Prop}
    (h : (Task.expr subject node).Runs program
      ((machine.emit [.reset node]).push (.choice pending node start opened)) events count reply) :
    EndsOptions program (machine.nextAlternative node start opened (subject :: pending)) machine
      (.reset node :: (events ++ Event.putBack start.offset reply)) count present node start opened
      pending (reply.putBack start) := by
  rcases reply with ⟨value | captured, after⟩ | ⟨fault, after⟩
  · have done := Reaches.resume h rfl
    rw [emit_moved, if_pos (by rfl)] at done
    rw [show Event.putBack start.offset (.ok (.matched value) after) = [] from rfl,
      List.append_nil]
    exact done
  · have done := Reaches.resume h rfl
    rw [emit_moved, if_neg (by simp [moved, Outcome.isMatch]), moved_rollback] at done
    exact ⟨false, fun _ => rfl, done⟩
  · have ended : Ends program _ _ events count (.error fault after) := h
    show Ends program _ machine _ count (.error fault after)
    exact ended.of_fault (by simp [push, emit, Event.putBack, Reply.isMiss])

end Machine

theorem Expr.part_steps_append {before part : Expr} {field : Option String} {nodes : List NodeId}
    {node : NodeId} (fits : nodes.length = before.parts.length) :
    (Expr.append before field part).partSteps (nodes ++ [node]) =
      before.partSteps nodes ++ [(part, node)] := by
  simp [partSteps, Expr.parts, List.zip_append, fits]

namespace Machine

variable {program : Program} {machine : Machine} {events : List Event} {count : Nat}
  {reply : Reply} {atLeastOne : Bool} {body : Expr} {node : NodeId} {number budget : Nat}

/-- The machine with the node of a further item attached. -/
def withItem (machine : Machine) (node : NodeId) (number : Nat) : Machine :=
  machine.moved machine.context [.attach node number (.afterCount machine.allocated)]
    (machine.allocated + 1) machine.matched

/-- The frame of a further item that begins at the cursor of the machine. -/
def itemFrame (machine : Machine) (atLeastOne : Bool) (body : Expr) (node : NodeId)
    (number budget : Nat) : Frame :=
  .repeated atLeastOne body node machine.context.cursor (machine.emitted + 1) number budget

theorem attempt_eq :
    machine.attempt atLeastOne body node number budget =
      ((machine.withItem node number).push
        (machine.itemFrame atLeastOne body node number budget)).push
          (.enter body (.afterCount machine.allocated)) :=
  rfl

/-- An item that did not match ends the repetition. -/
theorem advance_item_miss (after : Context) :
    ((machine.withItem node number).moved after events count false).advance program
        (machine.itemFrame atLeastOne body node number budget) =
      .ok (machine.moved (after.restore machine.context.cursor)
        (.attach node number (.afterCount machine.allocated) ::
          (events ++ [.rollback machine.context.offset, .detach node])) count
        (0 < number || !atLeastOne)) := by
  rw [withItem, moved_moved]
  show Except.ok (((moved _ _ _ _ _).rollback machine.context.cursor).emit [.detach node]
    |>.finish _) = _
  rw [moved_rollback, moved_emit, moved_finish, List.append_assoc, List.append_assoc]
  rfl

/-- An item that matched without moving the cursor is a fault. -/
theorem advance_item_stuck {after : Context} (stuck : after.offset = machine.context.offset) :
    ((machine.withItem node number).moved after events count true).advance program
        (machine.itemFrame atLeastOne body node number budget) =
      .error (.noProgress after.offset) := by
  have fault : ((machine.withItem node number).moved after events count true).context.checkProgress
      machine.context.cursor.offset = .error (.noProgress after.offset) := if_pos stuck
  unfold advance itemFrame
  simp only [fault]
  exact if_pos rfl

/-- An item that moved the cursor is followed by the next one. -/
theorem advance_item_moved {after : Context} (moves : after.offset ≠ machine.context.offset) :
    ((machine.withItem node number).moved after events count true).advance program
        (machine.itemFrame atLeastOne body node number (budget + 1)) =
      .ok ((machine.moved after (.attach node number (.afterCount machine.allocated) :: events)
        count true).attempt atLeastOne body node (number + 1) budget) := by
  have progress :
      ((machine.withItem node number).moved after events count true).context.checkProgress
        machine.context.cursor.offset = .ok () := if_neg moves
  unfold advance itemFrame
  simp only [progress]
  rw [withItem, moved_moved]
  exact if_pos rfl

end Machine

/-- A machine that starts a task with a derivation causes its events and ends in its reply. -/
theorem Traced.runs {program : Program} {task : Task} {count count' : Nat} {context : Context}
    {events : List Event} {reply : Reply}
    (h : Traced program task count context events count' reply) {machine : Machine}
    (allocated : machine.allocated = count) (at_context : machine.context = context)
    (room : context.cursor.rest.length ≤ machine.textLength) :
    task.Runs program machine events count' reply := by
  -- a body runs on the machine with the frame of its construct pushed; that frame has its turn when
  -- the body is done, which `Reaches.resume` and the lemmas above account for
  induction h generalizing machine with
  | literal_hit eaten =>
      subst at_context allocated
      refine Machine.runs_at_once ?_
      rw [Machine.enter, eaten, Option.map_some, Machine.leaf_eq_moved]
      rfl
  | literal_miss eaten =>
      subst at_context allocated
      refine Machine.runs_at_once ?_
      rw [Machine.enter, eaten, Option.map_none, Machine.leaf, Machine.finish_eq_moved]
      rfl
  | class_hit eaten =>
      subst at_context allocated
      refine Machine.runs_at_once ?_
      rw [Machine.enter, eaten, Option.map_some, Machine.leaf_eq_moved]
      rfl
  | class_miss eaten =>
      subst at_context allocated
      refine Machine.runs_at_once ?_
      rw [Machine.enter, eaten, Option.map_none, Machine.leaf, Machine.finish_eq_moved]
      rfl
  | empty | never =>
      subst at_context allocated
      refine Machine.runs_at_once ?_
      rw [Machine.enter, Machine.finish_eq_moved]
      rfl
  | @stringify_hit body node count context events count' value after inner ih =>
      subst at_context allocated
      have done := Machine.Reaches.resume (@ih
        (machine.allocate.2.push (.stringify node machine.context.cursor)) rfl rfl room) rfl
      rw [Machine.moved_display] at done
      refine Machine.runs_of_enter rfl ?_
      exact done
  | @stringify_pass body node count context events count' reply inner missed ih =>
      subst at_context allocated
      have ended := @ih
        (machine.allocate.2.push (.stringify node machine.context.cursor)) rfl rfl room
      refine Machine.runs_of_enter rfl ?_
      rcases reply with ⟨value | captured, after⟩ | ⟨fault, after⟩
      · cases missed
      · exact Machine.Reaches.resume ended rfl
      · exact ended
  | @optional_pass body node count context events count' reply inner hit ih =>
      subst at_context allocated
      have ended := @ih
        (machine.push (.optional node machine.context.cursor machine.emitted)) rfl rfl room
      refine Machine.runs_of_enter rfl ?_
      rcases reply with ⟨value | captured, after⟩ | ⟨fault, after⟩
      · exact Machine.Reaches.resume ended rfl
      · cases hit
      · exact ended
  | @optional_miss body node count context events count' captured after inner ih =>
      subst at_context allocated
      have done := Machine.Reaches.resume (@ih
        (machine.push (.optional node machine.context.cursor machine.emitted)) rfl rfl room) rfl
      rw [Machine.moved_rollback, Machine.moved_emit, Machine.moved_display,
        Machine.moved_finish] at done
      rw [List.append_assoc events] at done
      refine Machine.runs_of_enter rfl ?_
      exact done
  | @repeated atLeastOne body node count context events count' reply items ih =>
      subst at_context allocated
      have ended := @ih (machine.display node "[]" .list) rfl rfl room machine.textLength room
      exact Machine.runs_of_enter rfl (Machine.Ends.after_events ended)
  | @unresolved rule node count context missing =>
      subst at_context allocated
      refine Machine.runs_at_fault ?_
      rw [Machine.enter, missing]
  | @too_deep rule body node count context found deep =>
      subst at_context allocated
      refine Machine.runs_at_fault ?_
      rw [Machine.enter, found, Context.enterRule, if_pos deep]
  | call found below inner ih =>
      subst at_context allocated
      exact Machine.runs_call found below (ih rfl rfl room)
  | @append before field part parts node count context events count' reply whole inner ih =>
      subst at_context allocated
      have opened := @ih (machine.moved machine.context
        (Event.openParts node 0 machine.allocated parts) (machine.allocated + parts.length)
        machine.matched) rfl rfl room []
      -- the parts end the sequence, since there is one at least
      have some_node : NodeId.nextHandles machine.allocated parts.length ≠ [] := by
        simp [NodeId.nextHandles, ← whole, Expr.parts]
      refine Machine.runs_of_enter ?_ (Machine.Ends.after_events (opened.ends some_node))
      rw [Machine.enter, whole, Machine.open_parts_eq, Expr.partSteps, whole, List.append_nil]
  | @orElse before alternative node count context events count' reply inner ih =>
      subst at_context allocated
      have opened := @ih machine rfl rfl room (machine.emitted + 1) []
      have some_option : (Expr.orElse before alternative).alternatives ≠ [] := by
        simp [Expr.alternatives]
      refine Machine.runs_of_enter ?_ (opened.ends some_option)
      rw [Machine.enter, List.append_nil]
  | @tagged rule body node count context events count' reply inner ih =>
      subst at_context allocated
      have ended := (Machine.Ends.close_rule (@ih
        (((machine.emit [.ruleEnter rule]).display node rule .record).push (.ruleExit rule)) rfl rfl
        room)).tag rule machine.context.offset
      have shown : Machine.Ends program _ (machine.emit [.ruleEnter rule]) _ _ _ :=
        Machine.Ends.after_events ended
      rw [List.append_assoc]
      exact Machine.runs_of_enter rfl (Machine.Ends.after_events shown)
  | @untagged rule body node count context events count' reply inner ih =>
      subst at_context allocated
      have ended := Machine.Ends.close_rule (@ih
        ((machine.emit [.ruleEnter rule]).push (.ruleExit rule)) rfl rfl room)
      exact Machine.runs_of_enter rfl (Machine.Ends.after_events ended)
  | @located span body node count context events count' reply inner ih =>
      subst at_context allocated
      have ended := @ih (machine.emit [.sourceSpan span]) rfl rfl room
      exact Machine.runs_of_enter rfl (Machine.Ends.after_events ended)
  | @parts_empty count context =>
      subst at_context allocated
      intro pending
      refine ⟨machine.matched, fun some_node => absurd rfl some_node, ?_⟩
      rw [← Machine.finish_eq_moved]
      exact Relation.ReflTransGen.refl
  | @parts_head subject node count context events count' reply whole inner ih =>
      intro pending
      rw [Expr.partSteps, whole]
      exact Machine.ends_part (ih allocated at_context room)
  | @parts_stop before field part nodes node count context events count' reply inner missed ih =>
      intro pending
      have ended := ih allocated at_context room ((part, node) :: pending)
      rw [Expr.part_steps_append inner.length_nodes, List.append_assoc]
      rcases reply with ⟨value | captured, after⟩ | ⟨fault, after⟩
      · cases missed
      · exact ended
      · exact ended
  | @parts_next before field part nodes node count context events count' value middle more count''
      reply first second ih ih' =>
      intro pending
      obtain ⟨matched, -, reached⟩ := ih allocated at_context room ((part, node) :: pending)
      rw [Expr.part_steps_append first.length_nodes, List.append_assoc]
      exact Machine.EndsParts.after value field reached (Machine.ends_part (@ih'
        ((machine.moved middle events count' matched).push (.sequence pending)) rfl rfl
        (first.before.length_le.trans room)))
  | @options_never node count context =>
      subst at_context allocated
      intro opened pending
      refine ⟨machine.matched, fun some_option => absurd rfl some_option, ?_⟩
      rw [← Machine.finish_eq_moved]
      exact Relation.ReflTransGen.refl
  | @options_head subject node count context events count' reply whole inner ih =>
      subst at_context allocated
      intro opened pending
      rw [whole]
      exact Machine.ends_option (@ih
        ((machine.emit [.reset node]).push (.choice pending node machine.context.cursor opened))
        rfl rfl room)
  | @options_stop before alternative node count context events count' reply inner hit ih =>
      intro opened pending
      have ended := ih allocated at_context room opened (alternative :: pending)
      rw [Expr.alternatives, List.append_assoc]
      rcases reply with ⟨value | captured, after⟩ | ⟨fault, after⟩
      · exact ended
      · cases hit
      · exact ended
  | @options_next before alternative node count context events count' captured middle more count''
      reply first second ih ih' =>
      subst at_context allocated
      intro opened pending
      obtain ⟨matched, -, reached⟩ := ih rfl rfl room opened (alternative :: pending)
      rw [Expr.alternatives, List.append_assoc]
      exact Machine.EndsOptions.after reached (Machine.ends_option (@ih'
        (((machine.moved middle events count' matched).emit [.reset node]).push
          (.choice pending node machine.context.cursor opened)) rfl rfl
        (first.before.length_le.trans room)))
  | @items_fault atLeastOne body node earlier count context events count' fault after inner ih =>
      subst at_context allocated
      intro budget enough
      have ended : Machine.Ends program _ _ events count' (.error fault after) :=
        @ih ((machine.withItem node earlier.length).push
          (machine.itemFrame atLeastOne body node earlier.length budget)) rfl rfl room
      exact ended.of_fault (List.append_assoc ..)
  | @items_end atLeastOne body node earlier count context events count' captured after inner ih =>
      subst at_context allocated
      intro budget enough
      have missed := @ih ((machine.withItem node earlier.length).push
        (machine.itemFrame atLeastOne body node earlier.length budget)) rfl rfl room
      have done := Machine.Reaches.resume missed (Machine.advance_item_miss after)
      rw [Machine.attempt_eq]
      cases atLeastOne <;> cases earlier <;> exact done
  | @items_stuck atLeastOne body node earlier count context events count' value after inner stuck
      ih =>
      subst at_context allocated
      intro budget enough
      have matched := @ih ((machine.withItem node earlier.length).push
        (machine.itemFrame atLeastOne body node earlier.length budget)) rfl rfl room
      exact ⟨_, matched, ⟨_, _, rfl, Machine.advance_item_stuck stuck⟩, List.append_assoc .., rfl⟩
  | @items_more atLeastOne body node earlier count context events count' value middle more count''
      reply first moves rest ih ih' =>
      subst at_context allocated
      intro budget enough
      -- the budget was not used up, as the item read one of the characters that were left
      have shorter := first.before.length_lt moves
      obtain ⟨budget, rfl⟩ : ∃ fewer, budget = fewer + 1 :=
        Nat.exists_eq_succ_of_ne_zero (by omega)
      have matched := @ih ((machine.withItem node earlier.length).push
        (machine.itemFrame atLeastOne body node earlier.length (budget + 1))) rfl rfl room
      have next := Machine.Reaches.resume matched (Machine.advance_item_moved moves)
      have ended := @ih' (machine.moved middle
        (.attach node earlier.length (.afterCount machine.allocated) :: events) count' true) rfl rfl
        (first.before.length_le.trans room) budget (Nat.le_of_lt_succ (shorter.trans_le enough))
      exact ended.after_events.after next

end TracedGrammar

import Mathlib
import TracedGrammar.Proofs.Trace.Agreement
import TracedGrammar.Proofs.Trace.Consumed

/-!
# Rollbacks return to where the attempt began

An optional part, an item of a repetition or an alternative of a choice is an attempt: a frame waits
for it with the cursor to return to. Each `rollback` in a trace comes from such a frame whose
attempt has failed, and it returns to the cursor that the events before the attempt tell of; in
between no event moves the cursor to before that place.

The main statement is `rollback_of_session`. `Machine.advance_effect` says once what a unit of work
does to the stack, the cursor and the events; that an attempt stays `Machine.Underway` follows from
it for every frame on the stack. The earlier events leave one place only for a `rollback` to go to
(`Machine.FromFailedAttempt.offset_unique`).
-/

namespace TracedGrammar

/-- The offset that events leave the cursor at: the last one that an event moves it to. -/
def replayedOffset (events : List Event) : Nat :=
  (events.filterMap Event.offset?).getLast?.getD 0

/-- The cursor that a frame returns to if the attempt it waits for fails, with the number of events
before the first attempt of its construct. -/
def Frame.attempt? : Frame → Option (Cursor × Nat)
  | optional _ start opened | repeated _ _ _ start opened _ _ | choice _ _ start opened =>
      some (start, opened)
  | enter .. | stringify .. | sequence _ | ruleExit _ | callReturn => none

/-- Whether a frame waits for an alternative of a choice. -/
def Frame.isChoice : Frame → Bool
  | choice .. => true
  | _ => false

theorem replayed_offset_silent {events more : List Event}
    (silent : ∀ event ∈ more, event.offset? = none) :
    replayedOffset (events ++ more) = replayedOffset events := by
  rw [replayedOffset, List.filterMap_append, List.filterMap_eq_nil_iff.mpr silent, List.append_nil,
    replayedOffset]

theorem replayed_offset_concat {events : List Event} {event : Event} {offset : Nat}
    (moves : event.offset? = some offset) : replayedOffset (events ++ [event]) = offset := by
  rw [replayedOffset, List.filterMap_append, List.filterMap_cons_some moves]
  simp

theorem Frame.saved_of_attempt {frame : Frame} {start : Cursor} {opened : Nat}
    (h : frame.attempt? = some (start, opened)) : frame.saved? = some start := by
  cases frame <;> cases h <;> rfl

namespace Machine

/-- What a unit of work puts on the stack. A frame that waits for a new attempt holds the cursor and
the number of events as they are then; the next alternative of a choice keeps those of the first. -/
inductive Pushes (frame : Frame) (after : Machine) : List Frame → Prop where
  | plain {pushed} (plain : ∀ frame ∈ pushed, frame.attempt? = none) : Pushes frame after pushed
  | opens {body node waiting}
      (waits : waiting.attempt? = some (after.context.cursor, after.emitted)) :
      Pushes frame after [.enter body node, waiting]
  | continues {body node waiting opened} (isChoice : waiting.isChoice = true)
      (waited : frame.attempt? = some (after.context.cursor, opened))
      (waits : waiting.attempt? = some (after.context.cursor, opened)) :
      Pushes frame after [.enter body node, waiting]

/-- What a unit of work does to the cursor, and the events that tell of it. -/
inductive Tells (frame : Frame) (machine after : Machine) : List Event → Prop where
  | stays {events} (silent : ∀ event ∈ events, event.offset? = none)
      (cursor_eq : after.context.cursor = machine.context.cursor) :
      Tells frame machine after events
  | reads {events} (silent : ∀ event ∈ events, event.offset? = none)
      (onward : machine.context.cursor.Before after.context.cursor) :
      Tells frame machine after (events ++ [.consume after.context.offset])
  | returns {start opened events} (waited : frame.attempt? = some (start, opened))
      (missed : machine.matched = false) (silent : ∀ event ∈ events, event.offset? = none)
      (cursor_eq : after.context.cursor = start) :
      Tells frame machine after (.rollback start.offset :: events)

/-- The effect of a unit of work of a frame that was taken off the stack. -/
structure Effect (frame : Frame) (machine after : Machine) (pushed : List Frame)
    (events : List Event) : Prop where
  stack_eq : after.stack = pushed ++ machine.stack
  outbox_eq : after.outbox = machine.outbox ++ events
  emitted_eq : after.emitted = machine.emitted + events.length
  pushes : Pushes frame after pushed
  tells : Tells frame machine after events

section

variable {program : Program} {frame : Frame} {machine after : Machine} {node : NodeId}

/-- Work that causes no events and starts no attempt. -/
theorem effect_of_quiet {pushed : List Frame} (plain : ∀ frame ∈ pushed, frame.attempt? = none)
    (stack_eq : after.stack = pushed ++ machine.stack) (outbox_eq : after.outbox = machine.outbox)
    (emitted_eq : after.emitted = machine.emitted)
    (cursor_eq : after.context.cursor = machine.context.cursor) :
    Effect frame machine after pushed [] :=
  ⟨stack_eq, by rw [outbox_eq, List.append_nil], emitted_eq, .plain plain,
    .stays (by simp) cursor_eq⟩

theorem leaf_effect {text : String} {cursor : Cursor}
    (onward : machine.context.cursor.Before cursor) :
    Effect frame machine (machine.leaf node (some (text, cursor))) []
      (Event.leaf node text cursor) := by
  rw [leaf_eq_moved]
  exact ⟨rfl, rfl, rfl, .plain (by simp), .reads (by simp [Event.shows, Event.offset?]) onward⟩

theorem attempt_effect (atLeastOne : Bool) (body : Expr) (count budget : Nat) :
    Effect frame machine (machine.attempt atLeastOne body node count budget)
      [.enter body (.afterCount machine.allocated), .repeated atLeastOne body node
        machine.context.cursor (machine.emitted + 1) count budget]
      [.attach node count (.afterCount machine.allocated)] :=
  ⟨rfl, rfl, rfl, .opens rfl, .stays (by simp [Event.offset?]) rfl⟩

/-- The parts that are left are plain frames. -/
theorem next_part_eq (machine : Machine) (pending : List (Expr × NodeId)) :
    ∃ pushed : List Frame, (∀ frame ∈ pushed, frame.attempt? = none) ∧
      machine.nextPart pending = { machine with stack := pushed ++ machine.stack } := by
  cases pending with
  | nil => exact ⟨[], by simp, rfl⟩
  | cons part pending =>
      exact ⟨[.enter part.1 part.2, .sequence pending], by simp [Frame.attempt?], rfl⟩

theorem enter_effect {subject : Expr} (entered : machine.enter program subject node = .ok after) :
    ∃ pushed events, Effect frame machine after pushed events := by
  cases subject with
  | literal wanted =>
      cases entered
      cases eaten : machine.context.cursor.eatLiteral? wanted with
      | none => exact ⟨[], _, effect_of_quiet (by simp) rfl rfl rfl rfl⟩
      | some cursor => exact ⟨_, _, leaf_effect ⟨_, Cursor.eat_literal_eq_some_iff.mp eaten⟩⟩
  | charClass set =>
      cases entered
      cases eaten : machine.context.cursor.eatChar? set.accepts with
      | none => exact ⟨[], _, effect_of_quiet (by simp) rfl rfl rfl rfl⟩
      | some found => exact ⟨_, _, leaf_effect ⟨_, (Cursor.eat_char_eq_some_iff.mp eaten).2⟩⟩
  | stringify body =>
      cases entered
      exact ⟨[_, _], _, effect_of_quiet (by simp [Frame.attempt?]) rfl rfl rfl rfl⟩
  | optional body =>
      cases entered
      exact ⟨[_, _], [], rfl, (List.append_nil _).symm, rfl, .opens rfl, .stays (by simp) rfl⟩
  | repeated atLeastOne body =>
      cases entered
      refine ⟨[_, _], Event.shows node "[]" .list ++
        [.attach node 0 (.afterCount machine.allocated)], rfl, ?_, rfl, .opens rfl,
        .stays (by simp [Event.shows, Event.offset?]) rfl⟩
      exact List.append_assoc ..
  | call rule =>
      simp only [Machine.enter] at entered
      split at entered
      · cases entered
      · split at entered
        · cases entered
        · rename_i body found context opened
          cases entered
          have same : context.cursor = machine.context.cursor := by
            unfold Context.enterRule at opened
            split at opened <;> cases opened
            rfl
          exact ⟨[_, _], _, effect_of_quiet (by simp [Frame.attempt?]) rfl rfl rfl same⟩
  | empty | never =>
      cases entered
      exact ⟨[], _, effect_of_quiet (by simp) rfl rfl rfl rfl⟩
  | append before field part =>
      cases entered
      rw [open_parts_eq]
      obtain ⟨pushed, plain, pushed_eq⟩ := next_part_eq (machine.moved machine.context
        (Event.openParts node 0 machine.allocated (Expr.append before field part).parts)
        (machine.allocated + (Expr.append before field part).parts.length) machine.matched) _
      rw [pushed_eq]
      exact ⟨pushed, _, rfl, rfl, rfl, .plain plain, .stays (silent_openParts _ _ _ _) rfl⟩
  | orElse before alternative =>
      cases entered
      cases (Expr.orElse before alternative).alternatives with
      | nil => exact ⟨[], _, effect_of_quiet (by simp) rfl rfl rfl rfl⟩
      | cons first pending =>
          exact ⟨[_, _], [.reset node], rfl, rfl, rfl, .opens rfl,
            .stays (by simp [Event.offset?]) rfl⟩
  | tagged rule body =>
      cases entered
      refine ⟨[_, _], .ruleEnter rule :: Event.shows node rule .record, rfl, ?_, rfl,
        .plain (by simp [Frame.attempt?]), .stays (by simp [Event.shows, Event.offset?]) rfl⟩
      exact List.append_assoc ..
  | untagged rule body =>
      cases entered
      exact ⟨[_, _], [.ruleEnter rule], rfl, rfl, rfl, .plain (by simp [Frame.attempt?]),
        .stays (by simp [Event.offset?]) rfl⟩
  | located span body =>
      cases entered
      exact ⟨[_], [.sourceSpan span], rfl, rfl, rfl, .plain (by simp [Frame.attempt?]),
        .stays (by simp [Event.offset?]) rfl⟩

/-- What a unit of work does: it adds events, puts frames in the place of its own, and moves the
cursor as the events tell. -/
theorem advance_effect (done : machine.advance program frame = .ok after) :
    ∃ pushed events, Effect frame machine after pushed events := by
  cases frame with
  | enter subject node => exact enter_effect done
  | stringify node start =>
      simp only [Machine.advance] at done
      split at done <;> cases done
      · exact ⟨[], Event.shows node _ .text, rfl, rfl, rfl, .plain (by simp),
          .stays (by simp [Event.shows, Event.offset?]) rfl⟩
      · exact ⟨[], _, effect_of_quiet (by simp) rfl rfl rfl rfl⟩
  | optional node start opened =>
      simp only [Machine.advance] at done
      split at done <;> cases done
      · exact ⟨[], _, effect_of_quiet (by simp) rfl rfl rfl rfl⟩
      · rename_i missed
        refine ⟨[], .rollback start.offset :: .reset node :: Event.shows node "null" .absent, rfl,
          ?_, rfl, .plain (by simp),
          .returns rfl (by simpa using missed) (by simp [Event.shows, Event.offset?]) rfl⟩
        simp [rollback, Machine.display, emit, finish, Event.shows]
  | repeated atLeastOne body node start opened count budget =>
      simp only [Machine.advance] at done
      split at done
      · split at done <;> cases done
        exact ⟨_, _, attempt_effect atLeastOne body (count + 1) _⟩
      · rename_i missed
        cases done
        refine ⟨[], [.rollback start.offset, .detach node], rfl, ?_, rfl, .plain (by simp),
          .returns rfl (by simpa using missed) (by simp [Event.offset?]) rfl⟩
        simp [rollback, emit, finish]
  | sequence pending =>
      cases done
      split
      · obtain ⟨pushed, plain, pushed_eq⟩ := next_part_eq machine pending
        rw [pushed_eq]
        exact ⟨pushed, _, effect_of_quiet plain rfl rfl rfl rfl⟩
      · exact ⟨[], _, effect_of_quiet (by simp) rfl rfl rfl rfl⟩
  | choice pending node start opened =>
      cases done
      split
      · exact ⟨[], _, effect_of_quiet (by simp) rfl rfl rfl rfl⟩
      · rename_i missed
        cases pending with
        | nil =>
            exact ⟨[], [.rollback start.offset], rfl, rfl, rfl, .plain (by simp),
              .returns rfl (by simpa using missed) (by simp) rfl⟩
        | cons next pending =>
            refine ⟨[_, _], [.rollback start.offset, .reset node], rfl, ?_, rfl,
              .continues rfl rfl rfl,
              .returns rfl (by simpa using missed) (by simp [Event.offset?]) rfl⟩
            simp [rollback, emit, nextAlternative, push]
  | ruleExit rule =>
      cases done
      exact ⟨[], [.ruleExit rule], rfl, rfl, rfl, .plain (by simp),
        .stays (by simp [Event.offset?]) rfl⟩
  | callReturn =>
      cases done
      exact ⟨[], _, effect_of_quiet (by simp) rfl rfl rfl rfl⟩

/-- Every event that moves the cursor tells where it is after the work. -/
theorem Tells.offset_eq {events : List Event} (h : Tells frame machine after events) {event : Event}
    (among : event ∈ events) {offset : Nat} (moves : event.offset? = some offset) :
    offset = after.context.offset := by
  cases h with
  | stays silent => rw [silent event among] at moves; cases moves
  | reads silent =>
      rcases List.mem_append.mp among with among | among
      · rw [silent event among] at moves
        cases moves
      · cases List.mem_singleton.mp among
        cases moves
        rfl
  | returns waited missed silent cursor_eq =>
      rcases List.mem_cons.mp among with rfl | among
      · cases moves
        rw [Context.offset, cursor_eq]
      · rw [silent event among] at moves
        cases moves

/-- A `rollback` is the first event of its work, and comes from an attempt that failed. -/
theorem Tells.of_rollback {earlier later : List Event} {offset : Nat}
    (h : Tells frame machine after (earlier ++ .rollback offset :: later)) :
    earlier = [] ∧ machine.matched = false ∧
      ∃ start opened, frame.attempt? = some (start, opened) ∧ start.offset = offset := by
  generalize told : earlier ++ .rollback offset :: later = events at h
  have among : Event.rollback offset ∈ earlier ++ .rollback offset :: later := by simp
  rw [told] at among
  cases h with
  | stays silent => exact absurd (silent _ among) (by simp [Event.offset?])
  | reads silent =>
      rcases List.mem_append.mp among with among | among
      · exact absurd (silent _ among) (by simp [Event.offset?])
      · simp at among
  | @returns start opened events waited missed silent =>
      cases earlier with
      | nil =>
          cases told
          exact ⟨rfl, missed, start, opened, waited, rfl⟩
      | cons first earlier =>
          cases told
          exact absurd (silent (.rollback offset) (by simp)) (by simp [Event.offset?])

/-- The events after some work leave the cursor where it is, if those before did. -/
theorem Effect.replayed_eq {pushed : List Frame} {events : List Event}
    (h : Effect frame machine after pushed events)
    (replayed : replayedOffset machine.outbox = machine.context.offset) :
    replayedOffset after.outbox = after.context.offset := by
  rw [h.outbox_eq]
  cases h.tells with
  | stays silent cursor_eq =>
      rw [replayed_offset_silent silent, replayed, Context.offset, Context.offset, cursor_eq]
  | reads silent => rw [← List.append_assoc, replayed_offset_concat rfl]
  | @returns start opened events waited missed silent cursor_eq =>
      rw [List.append_cons, replayed_offset_silent silent, replayed_offset_concat rfl,
        Context.offset, cursor_eq]

end

/-- A machine is about to begin an attempt: the last unit of work has put the frame that waits for
it, and above this what is to be tried, in the place of its own frame. -/
def Begins (program : Program) (machine : Machine) (frame : Frame) (below : List Frame) : Prop :=
  ∃ before done body node, Advances program before machine ∧ before.stack = done :: below ∧
    machine.stack = .enter body node :: frame :: below

/-- One unit of work that keeps the given frames at the bottom of the stack. -/
def AdvancesAbove (program : Program) (frames : List Frame) (machine after : Machine) : Prop :=
  Advances program machine after ∧ frames <:+ after.stack

/-- Any number of units of work that keep the given frames at the bottom of the stack. -/
def ReachesAbove (program : Program) (frames : List Frame) : Machine → Machine → Prop :=
  Relation.ReflTransGen (AdvancesAbove program frames)

/-- A machine is in the middle of an attempt: `frame`, the frame of an optional part, a repetition or
a choice, waits for it above the frames `below`, and has saved `start`. The construct began at
`opening` with its first attempt, and at `began` with the one that is under way, with the cursor at
`start` both times. Only a choice makes another attempt with what it saved for the first. -/
structure Underway (program : Program) (origin opening began : Machine) (frame : Frame)
    (below : List Frame) (start : Cursor) (machine : Machine) : Prop where
  reached : Reaches program origin opening
  waits : frame.attempt? = some (start, opening.outbox.length)
  opens : ∃ first : Frame, first.attempt? = frame.attempt? ∧ opening.Begins program first below
  opens_at : opening.context.cursor = start
  again : ReachesAbove program below opening began
  first_of_not_choice : frame.isChoice = false → opening = began
  begins : began.Begins program frame below
  begins_at : began.context.cursor = start
  during : ReachesAbove program (frame :: below) began machine

/-- A machine in which an attempt has just failed, so that the next unit of work reports a `rollback`
to what its frame has saved. -/
structure FailedAttempt (program : Program) (origin opening began : Machine) (frame : Frame)
    (below : List Frame) (start : Cursor) (machine : Machine) : Prop
    extends Underway program origin opening began frame below start machine where
  ended : machine.stack = frame :: below
  missed : machine.matched = false
  reports : ∃ after later, Advances program machine after ∧
    after.outbox = machine.outbox ++ .rollback start.offset :: later

/-- A `rollback` to an offset that follows on earlier events comes from an attempt that failed, and
the offset is the one that the frame of this attempt has saved. The events before the attempt, and
those before its construct, leave the cursor at this offset; `more` are the events of alternatives
that failed before, and `since` those of the attempt. None of them moves the cursor to before the
offset. -/
def FromFailedAttempt (program : Program) (origin : Machine) (earlier : List Event)
    (offset : Nat) : Prop :=
  ∃ opening began failed frame below start,
    FailedAttempt program origin opening began frame below start failed ∧
    failed.outbox = earlier ∧ start.offset = offset ∧
    ∃ more since, began.outbox = opening.outbox ++ more ∧
      earlier = opening.outbox ++ more ++ since ∧ replayedOffset opening.outbox = offset ∧
      replayedOffset (opening.outbox ++ more) = offset ∧
      ∀ event ∈ more ++ since, ∀ moved ∈ event.offset?, offset ≤ moved

section

variable {program : Program} {text : String} {origin opening began machine after : Machine}
  {frame waiting : Frame} {frames below pushed : List Frame} {start : Cursor} {opened : Nat}

theorem ReachesAbove.reaches (h : ReachesAbove program frames machine after) :
    Reaches program machine after :=
  Relation.ReflTransGen.mono (fun _ _ next => next.1) _ _ h

/-- Less of the stack is kept as well. -/
theorem ReachesAbove.of_cons (h : ReachesAbove program (frame :: frames) machine after) :
    ReachesAbove program frames machine after :=
  Relation.ReflTransGen.mono
    (fun _ _ next => ⟨next.1, (List.suffix_cons frame frames).trans next.2⟩) _ _ h

/-- A frame that waits for an attempt is not among plain ones. -/
theorem suffix_of_plain (plain : ∀ frame ∈ pushed, frame.attempt? = none)
    (waits : frame.attempt? = some (start, opened))
    (within : (frame :: below) <:+ pushed ++ frames) : (frame :: below) <:+ frames := by
  induction pushed with
  | nil => exact within
  | cons top pushed ih =>
      rcases List.suffix_cons_iff.mp within with same | within
      · cases same
        rw [plain frame List.mem_cons_self] at waits
        cases waits
      · exact ih (fun other among => plain other (.tail _ among)) within

/-- Below an expression that is about to start, a frame is the one that waits for it or an older
one. -/
theorem suffix_of_enter {body : Expr} {node : NodeId}
    (waits : frame.attempt? = some (start, opened))
    (within : (frame :: below) <:+ .enter body node :: waiting :: frames) :
    (frame = waiting ∧ below = frames) ∨ (frame :: below) <:+ frames := by
  have plain : ∀ frame ∈ [Frame.enter body node], frame.attempt? = none := by simp [Frame.attempt?]
  rcases List.suffix_cons_iff.mp (suffix_of_plain plain waits within) with same | within
  · cases same
    exact .inl ⟨rfl, rfl⟩
  · exact .inr within

/-- Events are only ever added. -/
theorem Reaches.outbox_prefix (h : Reaches program machine after) :
    machine.outbox <+: after.outbox := by
  induction h with
  | refl => exact List.prefix_refl _
  | tail _ next ih =>
      obtain ⟨frame, stack, left, done⟩ := next
      obtain ⟨pushed, events, effect⟩ := advance_effect done
      exact ih.trans ⟨events, effect.outbox_eq.symm⟩

/-- A machine whose next unit of work adds events reaches no other one with as many events as it
has. -/
theorem Reaches.eq_of_outbox {other : Machine} {event : Event} {later : List Event}
    (h : Reaches program machine other) (next : Advances program machine after)
    (outbox_eq : after.outbox = machine.outbox ++ event :: later)
    (same : other.outbox = machine.outbox) : machine = other := by
  rcases h.cases_head with rfl | ⟨after', next', onward⟩
  · rfl
  · cases next.deterministic next'
    have longer := (Reaches.outbox_prefix onward).length_le
    rw [outbox_eq, same, List.length_append, List.length_cons] at longer
    omega

theorem FailedAttempt.reached_machine
    (h : FailedAttempt program origin opening began frame below start machine) :
    Reaches program origin machine :=
  h.reached.trans (h.again.reaches.trans h.during.reaches)

/-- A cursor that a frame saved is not behind the cursor of the machine. -/
theorem Consumed.saved_before (h : machine.Consumed text)
    (within : (frame :: below) <:+ machine.stack) (saved : frame.saved? = some start) :
    start.offset ≤ machine.context.offset := by
  obtain ⟨above, split⟩ := within
  have descends := h.descends
  rw [← split] at descends
  have below : Descends text machine.context.cursor (frame :: below) := by
    clear split
    induction above with
    | nil => exact descends
    | cons first above ih => exact ih descends.pop
  obtain ⟨chars, reads⟩ := ((descends_saved saved).mp below).1
  rw [Context.offset, reads.offset_eq]
  exact Nat.le_add_right ..

/-- What is new tells of the cursor after the work, and no frame saved a later one. -/
theorem Effect.bounded_after {done : Frame} {events : List Event} {since : Nat}
    (h : Effect done machine after pushed events) (consumed : after.Consumed text)
    (within : (frame :: below) <:+ after.stack) (waits : frame.attempt? = some (start, opened))
    (bounded : ∀ event ∈ machine.outbox.drop since, ∀ moved ∈ event.offset?, start.offset ≤ moved) :
    ∀ event ∈ after.outbox.drop since, ∀ moved ∈ event.offset?, start.offset ≤ moved := by
  intro event among moved moves
  rw [h.outbox_eq, List.drop_append] at among
  rcases List.mem_append.mp among with among | among
  · exact bounded event among moved moves
  · rw [h.tells.offset_eq (List.mem_of_mem_drop among) moves]
    exact consumed.saved_before within (Frame.saved_of_attempt waits)

end

/-- For every frame that waits for an attempt, the machine is in the middle of it, and no event since
its construct began moves the cursor to before what the frame saved. -/
structure Backed (program : Program) (origin machine : Machine) : Prop where
  emitted_eq : machine.emitted = machine.outbox.length
  replayed_eq : replayedOffset machine.outbox = machine.context.offset
  attempts : ∀ frame below start opened, (frame :: below) <:+ machine.stack →
    frame.attempt? = some (start, opened) →
    ∃ opening began, Underway program origin opening began frame below start machine ∧
      ∀ event ∈ machine.outbox.drop opened, ∀ moved ∈ event.offset?, start.offset ≤ moved

namespace Backed

variable {program : Program} {text : String} {origin machine after : Machine}

theorem of_advances (consumed : machine.Consumed text) (reached : Reaches program origin machine)
    (h : Backed program origin machine) (next : Advances program machine after) :
    Backed program origin after := by
  have consumed_after := consumed.of_advances next
  obtain ⟨done_frame, stack, left, done⟩ := next
  obtain ⟨pushed, events, effect⟩ := advance_effect done
  have next : Advances program machine after := ⟨done_frame, stack, left, done⟩
  have outbox_eq : after.outbox = machine.outbox ++ events := effect.outbox_eq
  have stack_eq : after.stack = pushed ++ stack := effect.stack_eq
  have emitted_eq : after.emitted = after.outbox.length := by
    rw [effect.emitted_eq, outbox_eq, List.length_append]
    exact congrArg (· + events.length) h.emitted_eq
  have replayed_eq := effect.replayed_eq h.replayed_eq
  refine ⟨emitted_eq, replayed_eq, fun frame below start opened within waits => ?_⟩
  -- an attempt that was under way still is, as long as its frame is on the stack
  have goes_on (old : (frame :: below) <:+ stack) :
      ∃ opening began, Underway program origin opening began frame below start after ∧
        ∀ event ∈ after.outbox.drop opened, ∀ moved ∈ event.offset?, start.offset ≤ moved := by
    have before : (frame :: below) <:+ machine.stack := by
      rw [left]
      exact old.trans (List.suffix_cons ..)
    obtain ⟨opening, began, underway, bounded⟩ :=
      h.attempts frame below start opened before waits
    exact ⟨opening, began, { underway with during := underway.during.tail ⟨next, within⟩ },
      effect.bounded_after consumed_after within waits bounded⟩
  cases effect.pushes with
  | plain plain =>
      exact goes_on (suffix_of_plain plain waits (stack_eq ▸ within))
  | @opens body node waiting waits' =>
      have begins : after.Begins program waiting stack :=
        ⟨machine, done_frame, body, node, next, left, stack_eq⟩
      rcases suffix_of_enter waits (stack_eq ▸ within) with ⟨rfl, rfl⟩ | old
      · -- the machine is where the attempt begins, and no event has happened in it
        cases waits.symm.trans waits'
        refine ⟨after, after, ?_, by simp [emitted_eq]⟩
        exact {
          reached := reached.tail next
          waits := emitted_eq ▸ waits
          opens := ⟨frame, rfl, begins⟩
          opens_at := rfl
          again := .refl
          first_of_not_choice := fun _ => rfl
          begins
          begins_at := rfl
          during := .refl }
      · exact goes_on old
  | @continues body node waiting opened' isChoice waited waits' =>
      have begins : after.Begins program waiting stack :=
        ⟨machine, done_frame, body, node, next, left, stack_eq⟩
      have kept : stack <:+ after.stack := by
        rw [stack_eq]
        exact List.suffix_append ..
      rcases suffix_of_enter waits (stack_eq ▸ within) with ⟨rfl, rfl⟩ | old
      · -- the choice began where its last alternative did, and the new one begins here
        cases waits.symm.trans waits'
        obtain ⟨opening, began, underway, bounded⟩ :=
          h.attempts done_frame below _ _ (left ▸ List.suffix_refl _) waited
        have same_saved : frame.attempt? = done_frame.attempt? := waits.trans waited.symm
        refine ⟨opening, after, ?_, effect.bounded_after consumed_after within waits bounded⟩
        exact {
          reached := underway.reached
          waits := same_saved.trans underway.waits
          opens := same_saved ▸ underway.opens
          opens_at := underway.opens_at
          again := (underway.again.trans underway.during.of_cons).tail ⟨next, kept⟩
          first_of_not_choice := fun not_choice => nomatch isChoice.symm.trans not_choice
          begins
          begins_at := rfl
          during := .refl }
      · exact goes_on old

theorem of_reaches {rule : String} (reached : Reaches program (.start rule text) machine) :
    Backed program (.start rule text) machine := by
  induction reached with
  | refl =>
      refine ⟨rfl, rfl, fun frame below start opened within waits => ?_⟩
      have plain : ∀ frame ∈ (Machine.start rule text).stack, frame.attempt? = none := by
        simp [Machine.start, Frame.attempt?]
      have nothing : (frame :: below) <:+ [] :=
        suffix_of_plain plain waits (by rw [List.append_nil]; exact within)
      simp at nothing
  | tail before next ih =>
      exact ih.of_advances ((Consumed.start rule text).of_reaches before) before next

/-- A frame that is back on top without a match explains the `rollback` that it reports. -/
theorem explains {rule : String} (reached : Reaches program (.start rule text) machine)
    {frame : Frame} {below : List Frame} {start : Cursor} {opened : Nat} {later : List Event}
    (left : machine.stack = frame :: below) (missed : machine.matched = false)
    (waits : frame.attempt? = some (start, opened)) (next : Advances program machine after)
    (outbox_eq : after.outbox = machine.outbox ++ .rollback start.offset :: later) :
    FromFailedAttempt program (.start rule text) machine.outbox start.offset := by
  obtain ⟨opening, began, underway, bounded⟩ :=
    (of_reaches reached).attempts frame below start opened (left ▸ List.suffix_refl _) waits
  have reached_began : Reaches program (.start rule text) began :=
    underway.reached.trans underway.again.reaches
  have from_opening : replayedOffset opening.outbox = start.offset :=
    (of_reaches underway.reached).replayed_eq.trans (congrArg _ underway.opens_at)
  have from_began : replayedOffset began.outbox = start.offset :=
    (of_reaches reached_began).replayed_eq.trans (congrArg _ underway.begins_at)
  obtain ⟨more, began_eq⟩ := underway.again.reaches.outbox_prefix
  obtain ⟨since, during_eq⟩ := underway.during.reaches.outbox_prefix
  cases waits.symm.trans underway.waits
  rw [← began_eq] at from_began during_eq
  rw [← during_eq, List.append_assoc, List.drop_left] at bounded
  exact ⟨opening, began, machine, frame, below, start,
    ⟨underway, left, missed, after, later, next, outbox_eq⟩, rfl, rfl, more, since, began_eq.symm,
    during_eq.symm, from_opening, from_began, bounded⟩

end Backed

/-- Every `rollback` that a machine reports comes from an attempt that failed. -/
theorem Reaches.from_failed_attempt {program : Program} {rule text : String} {machine : Machine}
    {earlier later : List Event} {offset : Nat}
    (reached : Reaches program (.start rule text) machine)
    (split : machine.outbox = earlier ++ .rollback offset :: later) :
    FromFailedAttempt program (.start rule text) earlier offset := by
  induction reached generalizing later with
  | refl => exact absurd split (by simp [Machine.start])
  | @tail machine after before next ih =>
      obtain ⟨frame, stack, left, done⟩ := next
      obtain ⟨pushed, events, effect⟩ := advance_effect done
      have next : Advances program machine after := ⟨frame, stack, left, done⟩
      have outbox_eq : after.outbox = machine.outbox ++ events := effect.outbox_eq
      have raised (new : List Event) (earlier_eq : earlier = machine.outbox ++ new)
          (added : events = new ++ .rollback offset :: later) :
          FromFailedAttempt program (.start rule text) earlier offset := by
        obtain ⟨rfl, missed, start, opened, waits, rfl⟩ := (added ▸ effect.tells).of_rollback
        rw [List.append_nil] at earlier_eq
        rw [added, List.nil_append] at outbox_eq
        exact earlier_eq ▸ Backed.explains before left missed waits next outbox_eq
      -- the event is one of those before the last unit of work, or of those that it added
      rw [outbox_eq] at split
      rcases List.append_eq_append_iff.mp split with
        ⟨new, earlier_eq, added⟩ | ⟨_ | ⟨first, old⟩, queued, added⟩
      · exact raised new earlier_eq added
      · exact raised [] (by simpa using queued.symm) added.symm
      · cases added
        exact ih queued

/-- The earlier events fix where a `rollback` goes: only one unit of work follows on them, and it is
the one of the frame whose attempt has failed. -/
theorem FromFailedAttempt.offset_unique {program : Program} {origin : Machine}
    {earlier : List Event} {offset other : Nat}
    (h : FromFailedAttempt program origin earlier offset)
    (h' : FromFailedAttempt program origin earlier other) : offset = other := by
  obtain ⟨_, _, failed, _, _, start, attempt, rfl, rfl, -⟩ := h
  obtain ⟨_, _, failed', _, _, start', attempt', same_outbox, rfl, -⟩ := h'
  obtain ⟨after, later, next, outbox_eq⟩ := attempt.reports
  obtain ⟨after', later', next', outbox_eq'⟩ := attempt'.reports
  obtain rfl : failed = failed' := by
    rcases Reaches.total attempt.reached_machine attempt'.reached_machine with onward | onward
    · exact onward.eq_of_outbox next outbox_eq same_outbox
    · exact (onward.eq_of_outbox next' outbox_eq' same_outbox.symm).symm
  rw [← next.deterministic next', outbox_eq, List.append_cancel_left_eq] at outbox_eq'
  exact Event.rollback.inj (List.cons.inj outbox_eq').1

end Machine

/-- The events that a session has returned, with those in its queue, are the first of those of the
derivation. -/
theorem returned_of_traced {program : Program} {start text : String} {events : List Event}
    {count : Nat} {reply : Reply}
    (traced : Traced program (.expr (.call start) .root) 0 (.start text) events count reply)
    (steps : Nat) : (Session.opened program start text).returned steps ++
      ((Session.opened program start text).after steps).machine.outbox <+: events := by
  obtain ⟨last, reached, stuck, rfl, -⟩ := exists_last traced
  obtain ⟨stack, onward⟩ :=
    (Session.stage_after (Session.running_opened program start text) steps).reached
  rw [(Session.after_same _ steps).1] at onward
  rcases Machine.Reaches.total onward reached with before | behind
  · exact Machine.Reaches.outbox_prefix before
  · rcases behind.cases_head with rfl | ⟨after, next, -⟩
    · exact List.prefix_refl _
    · exact absurd next (stuck after)

/-- Rollbacks are consistent. After any number of steps of a session, every `rollback` among the
events returned so far and those still in the queue comes from an attempt that failed, and returns
to the cursor that the events before this attempt tell of; no event in between moves the cursor to
before it. The machine that is meant is the one of the session with all its events kept. -/
theorem rollback_of_session {program : Program} {start text : String} {session : Session}
    (opened : program.session start text = .ok session) (steps : Nat)
    {earlier later : List Event} {offset : Nat}
    (split : session.returned steps ++ (session.after steps).machine.outbox =
      earlier ++ .rollback offset :: later) :
    Machine.FromFailedAttempt program (.start start text) earlier offset := by
  cases Session.eq_opened opened
  have stage := Session.stage_after (Session.running_opened program start text) steps
  obtain ⟨stack, reached⟩ := stage.reached
  rw [(Session.after_same _ steps).1] at reached
  exact reached.from_failed_attempt split

/-- A rule that reads pairs of characters as long as there are any. -/
def pairs : Program where
  rules := ⟨[("pairs", some (.repeated false
    (.append (.append .empty none (.literal "a")) none (.literal "b"))))]⟩
  maxDepth := 1

/-- The third character is read as the start of a second pair and given back: the `rollback` goes to
where this pair began, and could not go to where the character ends. -/
theorem rollback_of_pairs : ∃ session earlier, pairs.session "pairs" "aba" = .ok session ∧
    session.returned 14 ++ (session.after 14).machine.outbox =
      earlier ++ .rollback 2 :: [.detach .root] ∧ .consume 3 ∈ earlier ∧
    Machine.FromFailedAttempt pairs (.start "pairs" "aba") earlier 2 ∧
    ¬ Machine.FromFailedAttempt pairs (.start "pairs" "aba") earlier 3 := by
  have opened : pairs.session "pairs" "aba" = .ok (.opened pairs "pairs" "aba") := rfl
  have split : (Session.opened pairs "pairs" "aba").returned 14 ++
      ((Session.opened pairs "pairs" "aba").after 14).machine.outbox =
      (Event.shows .root "[]" .list ++ [.attach .root 0 ⟨1⟩] ++ Event.leaf ⟨2⟩ "a" ⟨1, []⟩ ++
        Event.leaf ⟨3⟩ "b" ⟨2, []⟩ ++ [.attach .root 1 ⟨4⟩] ++ Event.leaf ⟨5⟩ "a" ⟨3, []⟩) ++
      .rollback 2 :: [.detach .root] := by
    cbv
  have failed := rollback_of_session opened 14 split
  exact ⟨_, _, opened, split, by simp [Event.leaf], failed,
    fun other => absurd (failed.offset_unique other) (by decide)⟩

end TracedGrammar

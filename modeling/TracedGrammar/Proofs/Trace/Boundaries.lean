import TracedGrammar.Proofs.Trace.Agreement
import TracedGrammar.Proofs.Trace.Rollback

/-!
# Cursors stand on character boundaries

Offsets count bytes, and a cursor is saved, put back and sliced from by constructs that know nothing
of each other. What keeps all this within the text is that every cursor of a match is reached from
the start of the text by reading whole characters (`Cursor.Before`): then it stands on a boundary
(`Cursor.StandsIn`), and what lies between it and a later one is a piece of the text
(`Cursor.Spans`).

An expression never ends before the offset that it was started at. For direct matching this is said
about every expression that a match comes to start (`Program.Starts`), for the machine about every
frame that starts one, up to the moment at which the frames above those below it are done
(`Machine.WorksOn`).

The theorem to read first is `cursor_safety`.
-/

namespace TracedGrammar

/-- A text is the piece of another one between two offsets. -/
def IsPiece (text : String) (start stop : Nat) (piece : String) : Prop :=
  ∃ before after, text = before ++ piece ++ after ∧ before.utf8ByteSize = start ∧
    (before ++ piece).utf8ByteSize = stop

/-- An offset is within a text, on a character boundary. -/
structure IsBoundary (text : String) (offset : Nat) : Prop where
  le_size : offset ≤ text.utf8ByteSize
  isValid : String.Pos.Raw.IsValid text ⟨offset⟩

namespace Cursor

/-- A cursor is on a boundary of a text, before the rest of it. -/
structure StandsIn (text : String) (cursor : Cursor) : Prop where
  boundary : IsBoundary text cursor.offset
  seek_eq : cursor = .seek text cursor.offset

/-- Two cursors stand in a text one behind the other, with a piece of the text in between. -/
structure Spans (text : String) (earlier later : Cursor) : Prop where
  start : earlier.StandsIn text
  stop : later.StandsIn text
  onward : earlier.offset ≤ later.offset
  piece : IsPiece text earlier.offset later.offset (earlier.textTo later)

variable {text : String} {earlier later cursor : Cursor}

theorem Before.offset_le (h : earlier.Before later) : earlier.offset ≤ later.offset := by
  obtain ⟨chars, reads⟩ := h
  rw [reads.offset_eq]
  exact Nat.le_add_right ..

/-- A cursor reached from the start of a text splits it into what was read and the rest. -/
theorem Reads.text_eq {chars : List Char} (h : (start text).Reads chars cursor) :
    text = String.ofList chars ++ String.ofList cursor.rest := by
  rw [← String.ofList_append, ← h.rest_eq, start, String.ofList_toList]

theorem Reads.offset_eq_size {chars : List Char} (h : (start text).Reads chars cursor) :
    (String.ofList chars).utf8ByteSize = cursor.offset := by
  rw [h.offset_eq, String.utf8ByteSize_ofList]
  exact (Nat.zero_add _).symm

theorem Before.stands_in (h : (start text).Before cursor) : cursor.StandsIn text := by
  obtain ⟨chars, reads⟩ := h
  have size_eq := reads.offset_eq_size
  refine ⟨⟨?_, ?_⟩, ?_⟩
  · rw [reads.text_eq, String.utf8ByteSize_append, size_eq]
    exact Nat.le_add_right ..
  · refine String.Pos.Raw.isValid_iff_exists_append.mpr ⟨_, _, reads.text_eq, ?_⟩
    rw [← size_eq]
    rfl
  · -- the bytes up to the offset are those of the characters read, so the rest is what follows
    have rest_eq : text.toList = chars ++ cursor.rest := reads.rest_eq
    rw [seek, rest_eq, ← size_eq, String.utf8ByteSize_ofList, dropBytes_append, ←
      String.utf8ByteSize_ofList, size_eq]

/-- What lies between two cursors of a match is a piece of the text. -/
theorem Before.spans (begun : (start text).Before earlier) (onward : earlier.Before later) :
    Spans text earlier later := by
  refine ⟨begun.stands_in, (begun.trans onward).stands_in, onward.offset_le, ?_⟩
  obtain ⟨first, to_earlier⟩ := begun
  obtain ⟨chars, reads⟩ := onward
  have both := to_earlier.trans reads
  rw [reads.textTo_eq]
  refine ⟨String.ofList first, String.ofList later.rest, ?_, to_earlier.offset_eq_size, ?_⟩
  · rw [← String.ofList_append]
    exact both.text_eq
  · rw [← String.ofList_append]
    exact both.offset_eq_size

end Cursor

namespace Program

/-- An item of a repetition matches and moves the cursor, so that there can be another one. -/
def ItemMoves (program : Program) (body : Expr) (context after : Context) : Prop :=
  (∃ value, program.reply body context = .ok (.matched value) after) ∧
    after.offset ≠ context.offset

/-- Matching an expression in a context comes to start a part of it in another one. -/
inductive Starts (program : Program) : Expr × Context → Expr × Context → Prop where
  | stringify {body context} : Starts program (.stringify body, context) (body, context)
  | optional {body context} : Starts program (.optional body, context) (body, context)
  | item {atLeastOne body context later}
      (items : Relation.ReflTransGen (program.ItemMoves body) context later) :
      Starts program (.repeated atLeastOne body, context) (body, later)
  | call {rule body context inner} (found : program.rules.resolve? rule = some body)
      (entered : context.enterRule program.maxDepth rule = .ok inner) :
      Starts program (.call rule, context) (body, inner)
  | front {before field part context} :
      Starts program (.append before field part, context) (before, context)
  | part {before field part context value middle}
      (matched : program.reply before context = .ok (.matched value) middle) :
      Starts program (.append before field part, context) (part, middle)
  | first {before alternative context} :
      Starts program (.orElse before alternative, context) (before, context)
  | alternative {before alternative context captured middle}
      (missed : program.reply before context = .ok (.failed captured) middle) :
      Starts program (.orElse before alternative, context)
        (alternative, middle.restore context.cursor)
  | tagged {rule body context} : Starts program (.tagged rule body, context) (body, context)
  | untagged {rule body context} : Starts program (.untagged rule body, context) (body, context)
  | located {span body context} : Starts program (.located span body, context) (body, context)

section

variable {program : Program} {start text : String} {subject : Expr} {context : Context}
  {begun started : Expr × Context}

/-- Direct matching ends at the cursor it began at or behind it, whatever its reply. -/
theorem reply_before (program : Program) (subject : Expr) (context : Context) :
    context.cursor.Before (program.reply subject context).context.cursor := by
  obtain ⟨events, count, traced⟩ := exists_traced program subject .root 0 context
  exact traced.before

theorem before_of_reply {outcome : Outcome} {after : Context}
    (replied : program.reply subject context = .ok outcome after) :
    context.cursor.Before after.cursor := by
  have before := program.reply_before subject context
  rwa [replied] at before

/-- A part is started at the cursor of the whole or behind it. -/
theorem Starts.before (h : program.Starts begun started) :
    begun.2.cursor.Before started.2.cursor := by
  cases h with
  | item items =>
      induction items with
      | refl => exact .refl _
      | tail _ next ih =>
          obtain ⟨⟨value, replied⟩, -⟩ := next
          exact ih.trans (before_of_reply replied)
  | call found entered =>
      unfold Context.enterRule at entered
      split at entered <;> cases entered
      exact .refl _
  | part matched => exact before_of_reply matched
  | stringify | optional | front | first | alternative | tagged | untagged | located =>
      exact .refl _

/-- All that a match comes to start is started at a cursor of the text. -/
theorem started_before
    (h : Relation.ReflTransGen program.Starts (.call start, .start text) started) :
    (Cursor.start text).Before started.2.cursor := by
  induction h with
  | refl => exact .refl _
  | tail _ next ih => exact ih.trans next.before

end

end Program

namespace Machine

/-- One unit of work of a frame above the given ones. -/
def WorksAbove (program : Program) (below : List Frame) (machine after : Machine) : Prop :=
  Advances program machine after ∧
    ∃ frame above, machine.stack = frame :: (above ++ below)

/-- A machine is at work on what stands on the stack above the given frames, or just done. -/
def WorksOn (program : Program) (below : List Frame) : Machine → Machine → Prop :=
  Relation.ReflTransGen (WorksAbove program below)

section

variable {program : Program} {text rule : String} {machine after : Machine} {below : List Frame}
  {origin : Cursor}

/-- All that the frames above the given ones can go back to, and the cursor, are not before an
origin. -/
structure Beyond (origin : Cursor) (below : List Frame) (machine : Machine) : Prop where
  cursor : origin.Before machine.context.cursor
  frames : ∃ above, machine.stack = above ++ below ∧
    ∀ frame ∈ above, ∀ start opened, frame.attempt? = some (start, opened) → origin.Before start

theorem Beyond.of_advances {frame : Frame} {above : List Frame}
    (left : machine.stack = frame :: (above ++ below)) (h : machine.Beyond origin below)
    (next : Advances program machine after) : after.Beyond origin below := by
  obtain ⟨frame', stack, left', done⟩ := next
  cases left.symm.trans left'
  obtain ⟨whole, split, saved⟩ := h.frames
  have same : whole ++ below = (frame :: above) ++ below := split.symm.trans left
  cases List.append_cancel_right same
  obtain ⟨pushed, events, effect⟩ := advance_effect done
  have cursor : origin.Before after.context.cursor := by
    cases effect.tells with
    | stays silent cursor_eq => exact cursor_eq ▸ h.cursor
    | reads silent onward => exact h.cursor.trans onward
    | @returns start opened _ waited missed silent cursor_eq =>
        rw [cursor_eq]
        exact saved frame List.mem_cons_self start opened waited
  refine ⟨cursor, pushed ++ above, by rw [effect.stack_eq, List.append_assoc], ?_⟩
  intro other among start opened waits
  rcases List.mem_append.mp among with among | among
  · -- what was pushed goes back to where the cursor is now
    have here : start = after.context.cursor := by
      cases effect.pushes with
      | plain plain =>
          rw [plain other among] at waits
          cases waits
      | opens waits' =>
          rcases List.mem_cons.mp among with rfl | among
          · cases waits
          · cases List.mem_singleton.mp among
            cases waits.symm.trans waits'
            rfl
      | continues isChoice waited waits' =>
          rcases List.mem_cons.mp among with rfl | among
          · cases waits
          · cases List.mem_singleton.mp among
            cases waits.symm.trans waits'
            rfl
    rw [here]
    exact cursor
  · exact saved other (.tail _ among) start opened waits

/-- While a machine is at work on an expression, its cursor is at the one it began at or behind
it. -/
theorem WorksOn.before {subject : Expr} {node : NodeId}
    (left : machine.stack = .enter subject node :: below)
    (h : WorksOn program below machine after) :
    machine.context.cursor.Before after.context.cursor := by
  have beyond : after.Beyond machine.context.cursor below := by
    induction h with
    | refl => exact ⟨.refl _, [.enter subject node], left, by simp [Frame.attempt?]⟩
    | tail _ next ih =>
        obtain ⟨next, frame, above, left⟩ := next
        exact ih.of_advances left next
  exact beyond.cursor

end

end Machine

/-- A report of a rejection or of a guard against endless runs points to a boundary of the text. -/
def Diagnostic.PointsInto (text : String) (diagnostic : Diagnostic) : Prop :=
  diagnostic.kind = .parse ∨ diagnostic.kind = .grammar →
    ∃ offset, diagnostic.span = some (.point offset) ∧ IsBoundary text offset

section

variable {program : Program} {start text : String} {fault : Fault}

/-- A cursor saved on the stack is on the way to the current one. -/
theorem Descends.saved_before {cursor saved : Cursor} {stack : List Frame} {frame : Frame}
    (h : Descends text cursor stack) (among : frame ∈ stack) (waits : frame.saved? = some saved) :
    (Cursor.start text).Before saved ∧ saved.Before cursor := by
  induction stack generalizing cursor with
  | nil => cases among
  | cons top stack ih =>
      rcases List.mem_cons.mp among with rfl | among
      · obtain ⟨on_way, below⟩ := (descends_saved waits).mp h
        exact ⟨below.begun, on_way⟩
      · exact ih h.pop among

theorem points_into_of_boundary {offset : Nat} (boundary : IsBoundary text offset)
    {diagnostic : Diagnostic} (points : diagnostic.span = some (.point offset)) :
    diagnostic.PointsInto text :=
  fun _ => ⟨offset, points, boundary⟩

/-- A guard reports the place of the cursor. -/
theorem Machine.Faults.points_into {machine : Machine} (faults : machine.Faults program fault)
    (boundary : IsBoundary text machine.context.offset) : fault.diagnostic.PointsInto text := by
  obtain ⟨frame, stack, left, failed⟩ := faults
  cases frame with
  | enter subject node =>
      cases subject with
      | call rule =>
          simp only [advance, enter] at failed
          split at failed
          · cases failed
            rintro (none | none) <;> cases none
          · unfold Context.enterRule at failed
            split at failed
            · rename_i found fault' deep
              split at deep <;> cases deep
              cases failed
              exact points_into_of_boundary boundary rfl
            · cases failed
      | _ => cases failed
  | repeated atLeastOne body node begun opened count budget =>
      simp only [advance] at failed
      split at failed
      · split at failed
        · rename_i stuck
          unfold Context.checkProgress at stuck
          split at stuck <;> cases stuck
          cases failed
          exact points_into_of_boundary boundary rfl
        · cases failed
          exact points_into_of_boundary boundary rfl
        · cases failed
      · cases failed
  | stringify | optional | sequence | choice =>
      simp only [advance] at failed
      split at failed <;> cases failed
  | ruleExit | callReturn => cases failed

theorem Diagnostic.PointsInto.withSource {diagnostic : Diagnostic} (h : diagnostic.PointsInto text)
    (source : Source) : (diagnostic.withSource source).PointsInto text :=
  h

theorem rejection_points_into {offset : Nat} (boundary : IsBoundary text offset) (matched : Bool) :
    (Rejection.diagnostic ⟨start, text, offset, matched⟩).PointsInto text := by
  cases matched <;> exact points_into_of_boundary boundary rfl

/-- In each state that a match comes to, the cursor and those saved on the stack are on the way
through the text. -/
theorem Machine.Reaches.descends {machine : Machine}
    (reached : Machine.Reaches program (.start start text) machine) :
    Descends text machine.context.cursor machine.stack :=
  ((Machine.Consumed.start start text).of_reaches reached).descends

theorem Machine.Reaches.stands_in {machine : Machine}
    (reached : Machine.Reaches program (.start start text) machine) :
    machine.context.cursor.StandsIn text :=
  reached.descends.begun.stands_in

/-- The fault that direct matching of the start rule ends in points into the text. -/
theorem fault_points_into {context : Context}
    (replied : program.reply (.call start) (.start text) = .error fault context) :
    fault.diagnostic.PointsInto text := by
  obtain ⟨events, count, -, ends⟩ := exists_ends program start text
  rw [replied] at ends
  obtain ⟨stuck, reached, faults, -⟩ := ends
  exact faults.points_into reached.stands_in.boundary

theorem run_points_into (ran : program.run start text = .error fault) :
    fault.diagnostic.PointsInto text := by
  cases declared : program.rules.resolve? start with
  | none =>
      rw [Program.run, declared] at ran
      cases ran
      rintro (none | none) <;> cases none
  | some body =>
      obtain ⟨context, replied⟩ := (run_eq_error_iff declared).mp ran
      exact fault_points_into replied

/-- A run ends on a boundary of the text. -/
theorem boundary_of_run {outcome : Outcome} {offset : Nat}
    (ran : program.run start text = .ok (outcome, offset)) : IsBoundary text offset := by
  obtain ⟨body, context, -, replied, rfl⟩ := reply_of_run ran
  exact (Program.before_of_reply replied).stands_in.boundary

theorem parse_points_into {diagnostic : Diagnostic}
    (failed : program.parse start text = .error diagnostic) : diagnostic.PointsInto text := by
  unfold Program.parse at failed
  split at failed
  · rename_i fault ran
    cases failed
    exact (run_points_into ran).withSource _
  · rename_i value offset ran
    split at failed <;> cases failed
    exact rejection_points_into (boundary_of_run ran) true
  · rename_i captured offset ran
    cases failed
    exact rejection_points_into (boundary_of_run ran) false

/-- In each state between two steps of a session the cursor stands in the text. -/
theorem session_stands_in (program : Program) (start text : String) (steps : Nat) :
    ((Session.opened program start text).after steps).machine.context.cursor.StandsIn text := by
  have stage := Session.stage_after (Session.running_opened program start text) steps
  obtain ⟨stack, reached⟩ := stage.reached
  rw [(Session.after_same _ steps).1] at reached
  exact reached.stands_in

theorem outcome_points_into {steps : Nat} {diagnostic : Diagnostic}
    (failed : ((Session.opened program start text).after steps).outcome? =
      some (.error diagnostic)) : diagnostic.PointsInto text := by
  have stage := Session.stage_after (Session.running_opened program start text) steps
  obtain ⟨verdict, judged, outcome_eq⟩ := Option.map_eq_some_iff.mp failed
  obtain ⟨verdict', judged', offset_eq, -⟩ := (stage.concluded_of_verdict judged).exists_verdict
  cases judged.symm.trans judged'
  have boundary := (session_stands_in program start text steps).boundary
  cases verdict with
  | accepted consumed => cases outcome_eq
  | rejected offset matched =>
      cases outcome_eq
      rw [(Session.after_same _ steps).2.2]
      cases offset_eq
      exact rejection_points_into boundary matched

end

/-- Cursors are safe, in direct matching and in a session.

Every expression that a direct match comes to start is started at a cursor of the text and ends at
such a cursor, at the same offset or a later one, with a piece of the text in between. The same
holds for every expression that the machine starts, at any moment until it is done; and in every
state of the machine the cursors saved on the stack, which are those that can be put back or sliced
from, are cursors of the text not behind the current one. Between the steps of a session the cursor
is one of the text as well. Finally, all reports of rejections and of the guards against endless
runs point to a boundary of the text. -/
theorem cursor_safety (program : Program) (start text : String) :
    (∀ subject context,
      Relation.ReflTransGen program.Starts (.call start, .start text) (subject, context) →
      Cursor.Spans text context.cursor (program.reply subject context).context.cursor) ∧
    (∀ machine, Machine.Reaches program (.start start text) machine →
      machine.context.cursor.StandsIn text ∧
      (∀ frame ∈ machine.stack, ∀ saved ∈ frame.saved?,
        Cursor.Spans text saved machine.context.cursor) ∧
      ∀ subject node below after, machine.stack = .enter subject node :: below →
        Machine.WorksOn program below machine after →
        Cursor.Spans text machine.context.cursor after.context.cursor) ∧
    (∀ session steps, program.session start text = .ok session →
      (session.after steps).machine.context.cursor.StandsIn text) ∧
    (∀ fault, program.run start text = .error fault → fault.diagnostic.PointsInto text) ∧
    (∀ diagnostic, program.parse start text = .error diagnostic → diagnostic.PointsInto text) ∧
    ∀ session steps diagnostic, program.session start text = .ok session →
      (session.after steps).step.1 = .error diagnostic ∨
        (session.after steps).outcome? = some (.error diagnostic) →
      diagnostic.PointsInto text := by
  refine ⟨fun subject context started => ?_, fun machine reached => ⟨reached.stands_in, ?_, ?_⟩,
    fun session steps opened => ?_, fun fault => run_points_into,
    fun diagnostic => parse_points_into, fun session steps diagnostic opened failed => ?_⟩
  · exact (Program.started_before started).spans (program.reply_before subject context)
  · intro frame among saved waits
    obtain ⟨begun, on_way⟩ := reached.descends.saved_before among waits
    exact begun.spans on_way
  · intro subject node below after left works
    exact reached.descends.begun.spans (works.before left)
  · cases Session.eq_opened opened
    exact session_stands_in program start text steps
  · cases Session.eq_opened opened
    rcases failed with failed | failed
    · obtain ⟨fault, context, replied, rfl⟩ := error_of_step failed
      exact (fault_points_into replied).withSource _
    · exact outcome_points_into failed

end TracedGrammar

import TracedGrammar.Proofs.Json.Unquote
import TracedGrammar.Proofs.Trace.History

/-!
# Traces tell what was consumed

A trace alone gives back the text that was read: a leaf is shown before it is consumed, so each
`consume` adds the text set two events before it, and each `rollback` cuts off what was read since.
`buffer?` does so for any list of events.

A session agrees with its trace at every moment. The invariant is `Machine.Consumed`: the buffer
holds the text before the cursor, and the cursors that the frames saved lie behind one another on
the way there, the lowest frame's first. The main statement is `buffer_of_session`.
-/

namespace TracedGrammar

/-- The longest beginning of a text that fits into a number of bytes. -/
def firstBytes (bytes : Nat) (text : String) : String :=
  String.ofList (takeBytes bytes text.toList)

/-- The buffer after events that are given in reverse. -/
def bufferBack? : List Event → Option String
  | [] => some ""
  -- a leaf sets its text, then its kind, and is consumed last
  | .consume _ :: second :: .setText node quoted :: earlier => do
      let buffer ← bufferBack? (second :: .setText node quoted :: earlier)
      return buffer ++ (← Json.unquote? quoted)
  | .consume _ :: _ => none
  | .rollback offset :: earlier => (bufferBack? earlier).map (firstBytes offset)
  | _ :: earlier => bufferBack? earlier

/-- The buffer that a trace fills: each `consume` adds the text that was set two events before, and
each `rollback` cuts the buffer off at its offset. There is none if a text is missing or cannot be
read. -/
def buffer? (events : List Event) : Option String :=
  bufferBack? events.reverse

/-- The offset of an event fits the buffer: that of a `consume` is the new length, and that of a
`rollback` not beyond the old one. -/
def Event.Fits (earlier : List Event) : Event → Prop
  | .consume offset => ∃ buffer,
      buffer? (earlier ++ [.consume offset]) = some buffer ∧ buffer.utf8ByteSize = offset
  | .rollback offset => ∃ buffer, buffer? earlier = some buffer ∧ offset ≤ buffer.utf8ByteSize
  | _ => True

/-- The trace has filled its buffer with the text before a cursor, and every offset in it fits. -/
structure Filled (text : String) (events : List Event) (cursor : Cursor) : Prop where
  buffer_eq : ∃ chars, (Cursor.start text).Reads chars cursor ∧
    buffer? events = some (String.ofList chars)
  fits : ∀ earlier event later, events = earlier ++ event :: later → event.Fits earlier

section

variable {text : String} {events more : List Event} {event : Event} {cursor after : Cursor}

theorem buffer_silent (silent : event.offset? = none) :
    buffer? (events ++ [event]) = buffer? events := by
  rw [buffer?, List.reverse_concat]
  cases event <;> first | rfl | cases silent

theorem buffer_rollback (offset : Nat) :
    buffer? (events ++ [.rollback offset]) = (buffer? events).map (firstBytes offset) := by
  rw [buffer?, List.reverse_concat]
  rfl

theorem buffer_consume (node : NodeId) (leaf : String) (kind : NodeKind) (offset : Nat) :
    buffer? (events ++ [.setText node (Json.quote leaf), .setKind node kind, .consume offset]) =
      (buffer? events).map (· ++ leaf) := by
  rw [buffer?, List.reverse_append]
  show (do
    let buffer ← bufferBack? events.reverse
    return buffer ++ (← Json.unquote? (Json.quote leaf))) = _
  rw [Json.unquote_quote, ← buffer?]
  cases buffer? events <;> rfl

theorem first_bytes_append (chars rest : List Char) :
    firstBytes (String.utf8Len chars) (String.ofList (chars ++ rest)) = String.ofList chars := by
  rw [firstBytes, String.toList_ofList, takeBytes_append]

/-- A trace that fits goes on to fit if the next event does. -/
theorem fits_concat (h : ∀ earlier event later, events = earlier ++ event :: later →
      event.Fits earlier) (next : event.Fits events) :
    ∀ earlier event' later, events ++ [event] = earlier ++ event' :: later →
      event'.Fits earlier := by
  intro earlier event' later split
  -- either the new event is the one in question, or it was there before
  rcases List.eq_nil_or_concat' later with rfl | ⟨later, last, rfl⟩
  · obtain ⟨rfl, same⟩ := List.append_inj' split rfl
    cases same
    exact next
  · rw [← List.cons_append, ← List.append_assoc] at split
    obtain ⟨rfl, -⟩ := List.append_inj' split rfl
    exact h earlier event' later rfl

/-- Events that move no cursor leave the buffer as it is. -/
theorem Filled.silent (h : Filled text events cursor)
    (silent : ∀ event ∈ more, event.offset? = none) : Filled text (events ++ more) cursor := by
  induction more generalizing events with
  | nil => rwa [List.append_nil]
  | cons event more ih =>
      have quiet := silent event List.mem_cons_self
      rw [← List.singleton_append, ← List.append_assoc]
      refine ih ⟨?_, fits_concat h.fits ?_⟩ fun event later => silent event (.tail _ later)
      · obtain ⟨chars, reads, filled⟩ := h.buffer_eq
        exact ⟨chars, reads, (buffer_silent quiet).trans filled⟩
      · cases event <;> trivial

/-- A leaf adds what it read. -/
theorem Filled.leaf {leaf : String} (h : Filled text events cursor) (node : NodeId)
    (read : cursor.Reads leaf.toList after) :
    Filled text (events ++ Event.leaf node leaf after) after := by
  obtain ⟨chars, reads, filled⟩ := h.buffer_eq
  have shown : Filled text (events ++ Event.shows node (Json.quote leaf) .text) cursor :=
    h.silent (by simp [Event.shows, Event.offset?])
  have buffer_eq : buffer? (events ++ Event.leaf node leaf after) =
      some (String.ofList (chars ++ leaf.toList)) := by
    rw [Event.leaf, Event.shows, List.cons_append, List.cons_append, List.nil_append,
      buffer_consume, filled]
    simp
  refine ⟨⟨chars ++ leaf.toList, reads.trans read, buffer_eq⟩, ?_⟩
  rw [Event.leaf, ← List.append_assoc] at buffer_eq ⊢
  refine fits_concat shown.fits ⟨_, buffer_eq, ?_⟩
  rw [(reads.trans read).offset_eq, String.utf8ByteSize_ofList]
  exact (Nat.zero_add _).symm

/-- A rollback to a cursor on the way cuts off what was read since. -/
theorem Filled.rollback {start : Cursor} (h : Filled text events cursor)
    (begun : (Cursor.start text).Before start) (on_way : start.Before cursor) :
    Filled text (events ++ [.rollback start.offset]) start := by
  obtain ⟨chars, reads, filled⟩ := h.buffer_eq
  obtain ⟨first, to_start⟩ := begun
  obtain ⟨rest, onward⟩ := on_way
  -- both cursors are on the same way, so what was read can be split at the earlier one
  have split : chars = first ++ rest :=
    List.append_cancel_right (reads.rest_eq.symm.trans (to_start.trans onward).rest_eq)
  have offset_eq : start.offset = String.utf8Len first := by
    simpa [Cursor.start] using to_start.offset_eq
  subst split
  refine ⟨⟨first, to_start, ?_⟩, fits_concat h.fits ⟨_, filled, ?_⟩⟩
  · rw [buffer_rollback, filled, Option.map_some, offset_eq, first_bytes_append]
  · rw [offset_eq, String.utf8ByteSize_ofList, String.utf8Len_append]
    exact Nat.le_add_right ..

end

/-- The cursor that a frame goes back to if what is above it does not match. -/
def Frame.saved? : Frame → Option Cursor
  | enter .. | sequence _ | ruleExit _ | callReturn => none
  | stringify _ start | optional _ start _ | repeated _ _ _ start _ _ _ | choice _ _ start _ =>
      some start

/-- The cursors that a stack saved lie behind one another on the way from the start of the text to
the given one. -/
def Descends (text : String) : Cursor → List Frame → Prop
  | cursor, [] => (Cursor.start text).Before cursor
  | cursor, frame :: stack =>
      match frame.saved? with
      | none => Descends text cursor stack
      | some start => start.Before cursor ∧ Descends text start stack

/-- The cursors on the stack of a machine are on the way to its cursor, and its events fill the
buffer with the text up to there. -/
structure Machine.Consumed (text : String) (machine : Machine) : Prop where
  descends : Descends text machine.context.cursor machine.stack
  filled : Filled text machine.outbox machine.context.cursor

section

variable {text : String} {cursor later : Cursor} {stack : List Frame} {frame : Frame}

theorem descends_plain (plain : frame.saved? = none) :
    Descends text cursor (frame :: stack) ↔ Descends text cursor stack := by
  rw [Descends, plain]

theorem descends_saved {start : Cursor} (saved : frame.saved? = some start) :
    Descends text cursor (frame :: stack) ↔ start.Before cursor ∧ Descends text start stack := by
  rw [Descends, saved]

theorem Descends.mono (h : Descends text cursor stack) (onward : cursor.Before later) :
    Descends text later stack := by
  induction stack with
  | nil => exact h.trans onward
  | cons frame stack ih =>
      cases found : frame.saved? with
      | none => exact (descends_plain found).mpr (ih ((descends_plain found).mp h))
      | some start =>
          obtain ⟨on_way, below⟩ := (descends_saved found).mp h
          exact (descends_saved found).mpr ⟨on_way.trans onward, below⟩

theorem Descends.begun (h : Descends text cursor stack) : (Cursor.start text).Before cursor := by
  induction stack generalizing cursor with
  | nil => exact h
  | cons frame stack ih =>
      cases found : frame.saved? with
      | none => exact ih ((descends_plain found).mp h)
      | some start =>
          obtain ⟨on_way, below⟩ := (descends_saved found).mp h
          exact (ih below).trans on_way

/-- Below a frame the cursors descend from the current one as well. -/
theorem Descends.pop (h : Descends text cursor (frame :: stack)) : Descends text cursor stack := by
  cases found : frame.saved? with
  | none => exact (descends_plain found).mp h
  | some start =>
      obtain ⟨on_way, below⟩ := (descends_saved found).mp h
      exact below.mono on_way

end

theorem silent_openParts (node : NodeId) (named count : Nat)
    (parts : List (Option String × Expr)) :
    ∀ event ∈ Event.openParts node named count parts, event.offset? = none := by
  induction parts generalizing named count with
  | nil => simp [Event.openParts]
  | cons part parts ih =>
      obtain ⟨field, subject⟩ := part
      cases field with
      | none => exact ih named (count + 1)
      | some label =>
          intro event among
          rcases List.mem_cons.mp among with rfl | among
          · rfl
          · rcases List.mem_cons.mp among with rfl | among
            · rfl
            · exact ih (named + 1) (count + 1) event among

namespace Machine.Consumed

variable {program : Program} {text : String} {machine after : Machine}

theorem emit (h : machine.Consumed text) {events : List Event}
    (silent : ∀ event ∈ events, event.offset? = none) : (machine.emit events).Consumed text :=
  ⟨h.descends, h.filled.silent silent⟩

theorem push_plain (h : machine.Consumed text) {frame : Frame} (plain : frame.saved? = none) :
    (machine.push frame).Consumed text :=
  ⟨(descends_plain plain).mpr h.descends, h.filled⟩

theorem push_saved (h : machine.Consumed text) {frame : Frame}
    (saved : frame.saved? = some machine.context.cursor) : (machine.push frame).Consumed text :=
  ⟨(descends_saved saved).mpr ⟨.refl _, h.descends⟩, h.filled⟩

theorem allocate (h : machine.Consumed text) : machine.allocate.2.Consumed text :=
  ⟨h.descends, h.filled⟩

theorem finish (h : machine.Consumed text) (matched : Bool) :
    (machine.finish matched).Consumed text :=
  ⟨h.descends, h.filled⟩

theorem display (h : machine.Consumed text) (node : NodeId) (shown : String) (kind : NodeKind) :
    (machine.display node shown kind).Consumed text :=
  h.emit (by simp [Event.offset?])

theorem leaf (h : machine.Consumed text) (node : NodeId) (shown : String) {after : Cursor}
    (read : machine.context.cursor.Reads shown.toList after) :
    (machine.leaf node (some (shown, after))).Consumed text := by
  rw [leaf_eq_moved]
  exact ⟨h.descends.mono ⟨_, read⟩, h.filled.leaf node read⟩

/-- Going back to the cursor that the frame on top saved. -/
theorem rollback {frame : Frame} {start : Cursor} (h : (machine.push frame).Consumed text)
    (saved : frame.saved? = some start) : (machine.rollback start).Consumed text := by
  obtain ⟨on_way, below⟩ := (descends_saved saved).mp h.descends
  exact ⟨below, h.filled.rollback below.begun on_way⟩

theorem pop {frame : Frame} (h : (machine.push frame).Consumed text) : machine.Consumed text :=
  ⟨h.descends.pop, h.filled⟩

theorem nextPart (h : machine.Consumed text) (pending : List (Expr × NodeId)) :
    (machine.nextPart pending).Consumed text := by
  cases pending with
  | nil => exact h
  | cons part pending => exact (h.push_plain rfl).push_plain rfl

/-- The next alternative begins where the choice did. -/
theorem nextAlternative (h : machine.Consumed text) (node : NodeId) (opened : Nat)
    (pending : List Expr) :
    (machine.nextAlternative node machine.context.cursor opened pending).Consumed text := by
  cases pending with
  | nil => exact h
  | cons subject pending =>
      have reset : (machine.emit [.reset node]).Consumed text := h.emit (by simp [Event.offset?])
      have waiting : ((machine.emit [.reset node]).push
          (.choice pending node machine.context.cursor opened)).Consumed text :=
        reset.push_saved rfl
      exact waiting.push_plain rfl

theorem attempt (h : machine.Consumed text) (atLeastOne : Bool) (body : Expr) (node : NodeId)
    (count budget : Nat) : (machine.attempt atLeastOne body node count budget).Consumed text := by
  have attached : (machine.allocate.2.emit [.attach node count machine.allocate.1]).Consumed text :=
    h.allocate.emit (by simp [Event.offset?])
  have waiting : ((machine.allocate.2.emit [.attach node count machine.allocate.1]).push
      (.repeated atLeastOne body node machine.context.cursor
        (machine.allocate.2.emit [.attach node count machine.allocate.1]).emitted count
        budget)).Consumed text :=
    attached.push_saved rfl
  exact waiting.push_plain rfl

theorem openParts (h : machine.Consumed text) (node : NodeId) (named : Nat)
    (parts : List (Option String × Expr)) :
    (machine.openParts node named parts).2.Consumed text := by
  rw [open_parts_eq]
  exact ⟨h.descends, h.filled.silent (silent_openParts node named machine.allocated parts)⟩

theorem enter {subject : Expr} {node : NodeId} (h : machine.Consumed text)
    (entered : machine.enter program subject node = .ok after) : after.Consumed text := by
  cases subject with
  | literal wanted =>
      cases entered
      cases eaten : machine.context.cursor.eatLiteral? wanted with
      | none => exact h.finish false
      | some after => exact h.leaf node wanted (Cursor.eat_literal_eq_some_iff.mp eaten)
  | charClass set =>
      cases entered
      cases eaten : machine.context.cursor.eatChar? set.accepts with
      | none => exact h.finish false
      | some found =>
          obtain ⟨char, after⟩ := found
          have read := (Cursor.eat_char_eq_some_iff.mp eaten).2
          exact h.leaf node (String.singleton char) (by simpa using read)
  | stringify body =>
      cases entered
      have scratch : (machine.allocate.2.push (.stringify node machine.context.cursor)).Consumed
          text := h.allocate.push_saved rfl
      exact scratch.push_plain rfl
  | optional body =>
      cases entered
      have waiting : (machine.push (.optional node machine.context.cursor
          machine.emitted)).Consumed text := h.push_saved rfl
      exact waiting.push_plain rfl
  | repeated atLeastOne body =>
      cases entered
      exact (h.display node "[]" .list).attempt atLeastOne body node 0 machine.textLength
  | call rule =>
      simp only [Machine.enter] at entered
      split at entered
      · cases entered
      · split at entered
        · cases entered
        · rename_i body found context opened
          cases entered
          have deeper : ({ machine with context } : Machine).Consumed text := by
            have same : context.cursor = machine.context.cursor := by
              unfold Context.enterRule at opened
              split at opened
              · cases opened
              · cases opened
                rfl
            exact ⟨by rw [same]; exact h.descends, by rw [same]; exact h.filled⟩
          exact (deeper.push_plain rfl).push_plain rfl
  | empty =>
      cases entered
      show (machine.finish true).Consumed text
      exact h.finish true
  | never =>
      cases entered
      show (machine.finish false).Consumed text
      exact h.finish false
  | append before field part =>
      cases entered
      exact (h.openParts node 0 _).nextPart _
  | orElse before alternative =>
      cases entered
      show (machine.nextAlternative node machine.context.cursor (machine.emitted + 1)
        (Expr.orElse before alternative).alternatives).Consumed text
      exact h.nextAlternative node _ _
  | tagged rule body =>
      cases entered
      have entered : (machine.emit [.ruleEnter rule]).Consumed text :=
        h.emit (by simp [Event.offset?])
      exact ((entered.display node rule .record).push_plain rfl).push_plain rfl
  | untagged rule body =>
      cases entered
      have entered : (machine.emit [.ruleEnter rule]).Consumed text :=
        h.emit (by simp [Event.offset?])
      exact (entered.push_plain rfl).push_plain rfl
  | located span body =>
      cases entered
      have located : (machine.emit [.sourceSpan span]).Consumed text :=
        h.emit (by simp [Event.offset?])
      exact located.push_plain rfl

/-- A unit of work keeps the buffer in step with the cursor. -/
theorem advance {frame : Frame} (h : (machine.push frame).Consumed text)
    (done : machine.advance program frame = .ok after) : after.Consumed text := by
  cases frame with
  | enter subject node => exact h.pop.enter done
  | stringify node start =>
      simp only [Machine.advance] at done
      split at done <;> cases done
      · exact h.pop.display node _ .text
      · exact h.pop
  | optional node start opened =>
      simp only [Machine.advance] at done
      split at done <;> cases done
      · exact h.pop
      · have reset : ((machine.rollback start).emit [.reset node]).Consumed text :=
          (h.rollback rfl).emit (by simp [Event.offset?])
        exact (reset.display node "null" .absent).finish true
  | repeated atLeastOne body node start opened count budget =>
      simp only [Machine.advance] at done
      split at done
      · -- an item that stands still is a fault, and so is an item beyond the budget
        split at done <;> cases done
        exact h.pop.attempt atLeastOne body node (count + 1) _
      · cases done
        have detached : ((machine.rollback start).emit [.detach node]).Consumed text :=
          (h.rollback rfl).emit (by simp [Event.offset?])
        exact detached.finish _
  | sequence pending =>
      cases done
      split
      · exact h.pop.nextPart pending
      · exact h.pop
  | choice pending node start opened =>
      cases done
      split
      · exact h.pop
      · exact (h.rollback rfl).nextAlternative node opened pending
  | ruleExit rule =>
      cases done
      exact h.pop.emit (by simp [Event.offset?])
  | callReturn =>
      cases done
      -- leaving a rule changes the depth of the context only
      exact ⟨h.descends.pop, h.filled⟩

theorem of_advances (h : machine.Consumed text) (next : Advances program machine after) :
    after.Consumed text := by
  obtain ⟨frame, stack, left, done⟩ := next
  have top : (Machine.push { machine with stack } frame).Consumed text := by
    rw [Machine.push, ← left]
    exact h
  exact top.advance done

/-- The buffer is in step with the cursor after any number of units of work. -/
theorem of_reaches (h : machine.Consumed text) (reached : Reaches program machine after) :
    after.Consumed text := by
  induction reached with
  | refl => exact h
  | tail _ next ih => exact ih.of_advances next

theorem start (rule text : String) : (Machine.start rule text).Consumed text := by
  refine ⟨(descends_plain rfl).mpr (.refl _), ⟨[], .refl _, rfl⟩, ?_⟩
  intro earlier event later split
  exact absurd split (by simp [Machine.start])

end Machine.Consumed

section

variable {program : Program} {start text : String} {session : Session}

/-- The trace of a session is in step with its cursor at every moment. -/
theorem filled_after (opened : program.session start text = .ok session) (steps : Nat) :
    Filled text (session.returned steps ++ (session.after steps).machine.outbox)
      (session.after steps).machine.context.cursor := by
  cases Session.eq_opened opened
  have stage := Session.stage_after (Session.running_opened program start text) steps
  obtain ⟨stack, reached⟩ := stage.reached
  exact ((Machine.Consumed.start start text).of_reaches reached).filled

/-- The buffer holds as many bytes of the text as the cursor has passed. -/
theorem Filled.buffer_eq_first_bytes {events : List Event} {cursor : Cursor}
    (h : Filled text events cursor) :
    buffer? events = some (firstBytes cursor.offset text) ∧
      (firstBytes cursor.offset text).utf8ByteSize = cursor.offset := by
  obtain ⟨chars, reads, filled⟩ := h.buffer_eq
  have offset_eq : cursor.offset = String.utf8Len chars := by
    simpa [Cursor.start] using reads.offset_eq
  have whole : text = String.ofList (chars ++ cursor.rest) := by
    rw [← reads.rest_eq, Cursor.start, String.ofList_toList]
  have prefix_eq : firstBytes cursor.offset text = String.ofList chars := by
    rw [offset_eq, whole, first_bytes_append]
  rw [prefix_eq]
  exact ⟨filled, by rw [String.utf8ByteSize_ofList, offset_eq]⟩

/-- At the end of the text the buffer holds all of it. -/
theorem Filled.buffer_eq_text {events : List Event} {cursor : Cursor}
    (h : Filled text events cursor) (ended : cursor.atEnd = true) : buffer? events = some text := by
  obtain ⟨chars, reads, filled⟩ := h.buffer_eq
  have whole : text.toList = chars := by
    have all_read := reads.rest_eq
    rwa [List.isEmpty_iff.mp ended, List.append_nil] at all_read
  rw [filled, ← whole, String.ofList_toList]

/-- A session and its trace agree at every moment: after any number of steps, the buffer of the
events returned so far and those still in the queue is the text before the cursor, every `consume`
is at the new length of the buffer, and no `rollback` is beyond its length. A session that came to
its end without an error has a verdict, and then the buffer is the text up to its offset, which is
the whole text if it accepts. -/
theorem buffer_of_session (opened : program.session start text = .ok session) (steps : Nat) :
    let now := session.after steps
    let events := session.returned steps ++ now.machine.outbox
    buffer? events = some (firstBytes now.offset text) ∧
      (firstBytes now.offset text).utf8ByteSize = now.offset ∧
      (∀ earlier event later, events = earlier ++ event :: later → event.Fits earlier) ∧
      (now.isFinished = true →
        (∀ step, step < steps → ∀ report, (session.after step).step.1 ≠ .error report) →
        now.verdict.isSome = true) ∧
      ∀ verdict, now.verdict = some verdict →
        buffer? events = some (firstBytes verdict.offset text) ∧
          (verdict.isAccepted = true → buffer? events = some text) := by
  intro now events
  have filled := filled_after opened steps
  obtain ⟨buffer_eq, size_eq⟩ := filled.buffer_eq_first_bytes
  refine ⟨buffer_eq, size_eq, filled.fits, ?_, ?_⟩
  · intro finished no_error
    cases Session.eq_opened opened
    have halted := (Bool.and_eq_true _ _ ▸ finished).1
    rcases Session.running_or_concluded (Session.running_opened program start text) no_error with
      running | concluded
    · rw [running.halted_eq] at halted
      cases halted
    · obtain ⟨verdict, judged, -⟩ := concluded.exists_verdict
      rw [judged]
      rfl
  · intro verdict judged
    cases Session.eq_opened opened
    have stage := Session.stage_after (Session.running_opened program start text) steps
    obtain ⟨verdict', judged', offset_eq, at_end⟩ :=
      (stage.concluded_of_verdict judged).exists_verdict
    cases Option.some.inj (judged.symm.trans judged')
    refine ⟨by rw [offset_eq]; exact buffer_eq, fun accepted => ?_⟩
    exact filled.buffer_eq_text (at_end accepted)

end

/-- A rule that reads accents as long as there are any. -/
def accents : Program where
  rules := ⟨[("accents", some (.repeated false (.literal "é")))]⟩
  maxDepth := 1

theorem buffer_of_accents :
    ∃ session, accents.session "accents" "éé!" = .ok session ∧
      buffer? (session.returned 8 ++ (session.after 8).machine.outbox) =
        some (firstBytes (session.after 8).offset "éé!") := by
  obtain ⟨session, opened⟩ : ∃ session, accents.session "accents" "éé!" = .ok session := ⟨_, rfl⟩
  exact ⟨session, opened, (buffer_of_session opened 8).1⟩

end TracedGrammar

import TracedGrammar.Proofs.Trace.Rollback
import TracedGrammar.Proofs.Trace.Termination

/-!
# How sessions end

A session ends once, by a verdict or by a fault, and stays as it is from then on. A fault clears
what was left to do together with the queue, so it has to be shown that nothing is lost with it:
units of work only begin when the queue is empty, and a unit fails before it queues anything.

`Machine.advance` has no machine to show for a unit that fails. To say what a fault leaves behind,
`Machine.act` does the same work in place, one operation after the other, where a fault keeps what
was done before it. The two agree, so a failing unit turns out to have done nothing
(`Machine.perform_act`), and every step of a session can be had from work in place
(`Session.Yields`).

The theorem to read first is `ending_of_session`.
-/

namespace TracedGrammar

namespace Machine

/-- Work on a machine in place. What is done before a fault stays done. -/
abbrev InPlace :=
  ExceptT Fault (StateM Machine)

namespace InPlace

/-- The result of some work, or the fault that cut it short, with the machine after it. -/
def perform {α : Type} (work : InPlace α) (machine : Machine) : Except Fault α × Machine :=
  work.run.run machine

/-- The body of a rule that is called. -/
def resolve (program : Program) (rule : String) : InPlace Expr :=
  match program.rules.resolve? rule with
  | none => throw (.unresolved rule)
  | some body => pure body

/-- Opens a call of a rule. -/
def openCall (program : Program) (rule : String) : InPlace Unit := do
  match (← get).context.enterRule program.maxDepth rule with
  | .error fault => throw fault
  | .ok context => modify ({ · with context })

/-- Demands that the cursor has moved. -/
def demandProgress (start : Cursor) : InPlace Unit := do
  match (← get).context.checkProgress start.offset with
  | .error fault => throw fault
  | .ok () => pure ()

/-- Starts an expression on a node. -/
def enter (program : Program) (expr : Expr) (node : NodeId) : InPlace Unit :=
  match expr with
  | .literal text => modify fun machine =>
      machine.leaf node ((machine.context.cursor.eatLiteral? text).map fun after => (text, after))
  | .charClass set => modify fun machine =>
      machine.leaf node <| (machine.context.cursor.eatChar? set.accepts).map fun (char, after) =>
        (String.singleton char, after)
  | .stringify body => do
      let (scratch, allocated) := (← get).allocate
      set allocated
      modify fun machine => machine.push (.stringify node machine.context.cursor)
      modify (·.push (.enter body scratch))
  | .optional body => do
      modify fun machine => machine.push (.optional node machine.context.cursor machine.emitted)
      modify (·.push (.enter body node))
  | .repeated atLeastOne body => do
      modify (·.display node "[]" .list)
      modify fun machine => machine.attempt atLeastOne body node 0 machine.textLength
  | .call rule => do
      let body ← resolve program rule
      openCall program rule
      modify (·.push .callReturn)
      modify (·.push (.enter body node))
  | .empty => modify (·.finish true)
  | .append before field part => do
      let (opened, allocated) :=
        (← get).openParts node 0 (Expr.append before field part).parts
      set allocated
      modify (·.nextPart opened)
  | .never => modify (·.finish false)
  | .orElse before alternative => modify fun machine =>
      machine.nextAlternative node machine.context.cursor (machine.emitted + 1)
        (Expr.orElse before alternative).alternatives
  | .tagged rule body => do
      modify (·.emit [.ruleEnter rule])
      modify (·.display node rule .record)
      modify (·.push (.ruleExit rule))
      modify (·.push (.enter body node))
  | .untagged rule body => do
      modify (·.emit [.ruleEnter rule])
      modify (·.push (.ruleExit rule))
      modify (·.push (.enter body node))
  | .located span body => do
      modify (·.emit [.sourceSpan span])
      modify (·.push (.enter body node))

end InPlace

/-- Does the unit of work of a frame that was taken off the stack in place. -/
def act (program : Program) (frame : Frame) : InPlace Unit := do
  let matched := (← get).matched
  match frame with
  | .enter expr node => InPlace.enter program expr node
  | .stringify node start =>
      if matched then
        modify fun machine =>
          machine.display node (Json.quote (start.textTo machine.context.cursor)) .text
  | .optional node start _ =>
      if !matched then
        modify (·.rollback start)
        modify (·.emit [.reset node])
        modify (·.display node "null" .absent)
        modify (·.finish true)
  | .repeated atLeastOne body node start _ count budget =>
      if matched then
        InPlace.demandProgress start
        modify (·.attempt atLeastOne body node (count + 1) (budget - 1))
      else
        modify (·.rollback start)
        modify (·.emit [.detach node])
        modify (·.finish (0 < count || !atLeastOne))
  | .sequence pending => if matched then modify (·.nextPart pending)
  | .choice pending node start opened =>
      if !matched then
        modify (·.rollback start)
        modify (·.nextAlternative node start opened pending)
  | .ruleExit rule => modify (·.emit [.ruleExit rule])
  | .callReturn => modify fun machine => { machine with context := machine.context.exitRule }

/-- What work in place comes to that does what a function says, and nothing if the function
fails. -/
def doneOrFailed (machine : Machine) : Except Fault Machine → Except Fault Unit × Machine
  | .ok after => (.ok (), after)
  | .error fault => (.error fault, machine)

section

variable {program : Program} {machine : Machine} {node : NodeId}

namespace InPlace

/-- What is done after a first piece of work begins where this one ends, if it does not fail. -/
theorem perform_bind (work next : InPlace Unit) : (work >>= fun _ => next).perform machine =
    match work.perform machine with
    | (.ok _, after) => next.perform after
    | (.error fault, after) => (.error fault, after) := by
  show (match work.perform machine with
    | (result, after) => (ExceptT.bindCont (fun _ => next) result).run after) = _
  rcases work.perform machine with ⟨fault | value, after⟩ <;> rfl

theorem perform_openCall (rule : String) : (openCall program rule).perform machine =
    machine.doneOrFailed ((machine.context.enterRule program.maxDepth rule).map
      fun context => { machine with context }) := by
  show InPlace.perform (match machine.context.enterRule program.maxDepth rule with
    | .error fault => throw fault
    | .ok context => modify ({ · with context })) machine = _
  cases machine.context.enterRule program.maxDepth rule <;> rfl

theorem perform_demandProgress (start : Cursor) : (demandProgress start).perform machine =
    machine.doneOrFailed ((machine.context.checkProgress start.offset).map fun _ => machine) := by
  show InPlace.perform (match machine.context.checkProgress start.offset with
    | .error fault => throw fault
    | .ok () => pure ()) machine = _
  cases machine.context.checkProgress start.offset <;> rfl

theorem perform_enter (expr : Expr) : (InPlace.enter program expr node).perform machine =
    machine.doneOrFailed (machine.enter program expr node) := by
  cases expr with
  | call rule =>
      simp only [InPlace.enter, Machine.enter, InPlace.resolve]
      cases program.rules.resolve? rule with
      | none => rfl
      | some body =>
          refine (perform_bind (openCall program rule) _).trans ?_
          rw [perform_openCall]
          cases machine.context.enterRule program.maxDepth rule <;> rfl
  | _ => rfl

end InPlace

/-- A unit of work done in place is that of the machine. If it fails it has done nothing. -/
theorem perform_act (frame : Frame) : (act program frame).perform machine =
    machine.doneOrFailed (machine.advanceFreely program frame) := by
  obtain ⟨context, stack, outbox, emitted, matched, allocated, textLength⟩ := machine
  cases frame with
  | enter expr node => exact InPlace.perform_enter expr
  | repeated atLeastOne body node start opened count budget =>
      cases matched with
      | false => rfl
      | true =>
          refine (InPlace.perform_bind (InPlace.demandProgress start)
            (modify (·.attempt atLeastOne body node (count + 1) (budget - 1)))).trans ?_
          rw [InPlace.perform_demandProgress]
          simp only [advanceFreely, if_true]
          cases context.checkProgress start.offset <;> rfl
  | ruleExit | callReturn => rfl
  | _ => cases matched <;> rfl

end

end Machine

namespace Session

/-- How a step comes to return if the units of work are done in place: it hands out what is in the
queue, ends a match that has nothing left to do, or does a unit of work and goes on. A unit that
fails ends the match with all that it has done. -/
inductive Yields : Session → Except Diagnostic (Option Event) × Session → Prop where
  | event {session event outbox} (queued : session.machine.outbox = event :: outbox) :
      Yields session (.ok (some event),
        { session with machine := { session.machine with outbox } }.track event)
  | idle {session} (drained : session.machine.outbox = []) (halted : session.halted = true) :
      Yields session (.ok none, session)
  | verdict {session} (drained : session.machine.outbox = []) (running : session.halted = false)
      (left : session.machine.stack = []) : Yields session (.ok none, session.conclude)
  | fault {session frame stack fault machine} (drained : session.machine.outbox = [])
      (running : session.halted = false) (left : session.machine.stack = frame :: stack)
      (failed : (Machine.act session.program frame).perform { session.machine with stack } =
        (.error fault, machine)) :
      Yields session (.error (fault.diagnostic.withSource (inputSource session.text)),
        { session with machine }.abort)
  | work {session frame stack machine result} (drained : session.machine.outbox = [])
      (running : session.halted = false) (left : session.machine.stack = frame :: stack)
      (done : (Machine.act session.program frame).perform { session.machine with stack } =
        (.ok (), machine))
      (rest : Yields { session with machine } result) : Yields session result

section

variable {session : Session} {origin : Machine} {returned : List Event} {steps : Nat}
  {result : Except Diagnostic (Option Event) × Session}

theorem Returns.yields (h : session.Returns result) : session.Yields result := by
  induction h with
  | event queued => exact .event queued
  | idle drained halted => exact .idle drained halted
  | verdict drained running left => exact .verdict drained running left
  | @fault session frame stack fault drained running left failed =>
      have kept := @Machine.perform_act session.program { session.machine with stack } frame
      rw [failed] at kept
      exact (.fault drained running left kept :
        session.Yields (_, { session with machine := { session.machine with stack } }.abort))
  | @work session frame stack machine result drained running left done rest ih =>
      have kept := @Machine.perform_act session.program { session.machine with stack } frame
      rw [done] at kept
      exact .work drained running left kept ih

/-- As long as its steps return events a session is under way. -/
theorem Running.of_events (h : session.Running origin [])
    (all : ∀ step < steps, ∃ event, (session.after step).step.1 = .ok (some event)) :
    (session.after steps).Running origin (session.returned steps) := by
  induction steps with
  | zero => exact h
  | succ steps ih =>
      have next := (ih fun step earlier => all step (Nat.lt_succ_of_lt earlier)).step
      obtain ⟨event, handed⟩ := all steps (Nat.lt_succ_self steps)
      rw [after, returned]
      rcases stepped : (session.after steps).step with ⟨result, later⟩
      rw [stepped] at handed next
      cases handed
      exact next

/-- How a match ends: its steps return events up to the one that comes with the verdict or the
fault, and from then on nothing happens. -/
structure EndsOnce (origin : Machine) (session : Session) (total : Nat) : Prop where
  events : ∀ step < total, ∃ event, (session.after step).step.1 = .ok (some event)
  idle : ∀ step, total < step → (session.after step).step = (.ok none, session.after step)
  ending : ((session.after total).step.1 = .ok none ∧
      (session.after (total + 1)).Concluded origin (session.returned total)) ∨
    ∃ fault : Fault, (session.after total).step.1 =
        .error (fault.diagnostic.withSource (inputSource session.text)) ∧
      (session.after (total + 1)).Aborted origin (session.returned total) fault

theorem Running.endsOnce (h : session.Running origin []) :
    ∃ total, session.EndsOnce origin total := by
  obtain ⟨total, ends, -⟩ := @Running.ends session origin [] h
  refine ⟨total, ends.events, ends.idle, ?_⟩
  have next := (h.of_events ends.events).step
  have text_eq := (session.after_same total).2.2
  rw [after]
  rcases stepped : (session.after total).step with ⟨diagnostic | event, later⟩
  · rw [stepped] at next
    obtain ⟨fault, aborted, report⟩ := next
    exact .inr ⟨fault, by rw [report, text_eq], aborted⟩
  · rw [stepped] at next
    cases event with
    | none => exact .inl ⟨rfl, next⟩
    | some event =>
        rcases ends.last with ⟨none_left, -⟩ | ⟨fault, failed⟩
        · rw [stepped] at none_left
          cases none_left
        · rw [stepped] at failed
          cases failed

namespace EndsOnce

variable {total step later : Nat} {report : Diagnostic}

/-- The step that does not return an event is the last one, or one after it. -/
theorem le_of_no_event (h : session.EndsOnce origin total)
    (no_event : ∀ event, (session.after step).step.1 ≠ .ok (some event)) : total ≤ step := by
  refine Nat.le_of_not_lt fun earlier => ?_
  obtain ⟨event, handed⟩ := h.events step earlier
  exact no_event event handed

theorem eq_of_error (h : session.EndsOnce origin total)
    (failed : (session.after step).step.1 = .error report) : step = total := by
  have le : total ≤ step := h.le_of_no_event fun event handed => by
    rw [failed] at handed
    cases handed
  refine Nat.le_antisymm (Nat.le_of_not_lt fun beyond => ?_) le
  rw [h.idle step beyond] at failed
  cases failed

/-- After its last step a session stays as it is. -/
theorem after_eq (h : session.EndsOnce origin total) (beyond : total < step) :
    session.after step = session.after (total + 1) := by
  induction beyond with
  | refl => rfl
  | @step step beyond ih => rw [after, h.idle step beyond, ih]

theorem aborted (h : session.EndsOnce origin total)
    (failed : (session.after total).step.1 = .error report) :
    ∃ fault : Fault, report = fault.diagnostic.withSource (inputSource session.text) ∧
      (session.after (total + 1)).Aborted origin (session.returned total) fault := by
  rcases h.ending with ⟨none_left, -⟩ | ⟨fault, failed', aborted⟩
  · rw [none_left] at failed
    cases failed
  · rw [failed'] at failed
    cases failed
    exact ⟨fault, rfl, aborted⟩

/-- Up to its last step a session is under way. -/
theorem running (h : session.EndsOnce origin total) (begun : session.Running origin [])
    (earlier : step ≤ total) : (session.after step).Running origin (session.returned step) :=
  begun.of_events fun before less => h.events before (Nat.lt_of_lt_of_le less earlier)

/-- A session has a verdict once a step has returned that there is none left, without an error
before. -/
theorem verdict_iff (h : session.EndsOnce origin total) (begun : session.Running origin [])
    (steps : Nat) : (session.after steps).verdict.isSome = true ↔
      (∃ step < steps, (session.after step).step.1 = .ok none) ∧
        ∀ step < steps, ∀ report, (session.after step).step.1 ≠ .error report := by
  rcases Nat.lt_or_ge total steps with beyond | earlier
  · rw [h.after_eq beyond]
    rcases h.ending with ⟨none_left, concluded⟩ | ⟨fault, failed, aborted⟩
    · obtain ⟨verdict, judged, -⟩ := concluded.exists_verdict
      rw [judged]
      refine iff_of_true rfl ⟨⟨total, beyond, none_left⟩, fun step _ report failed => ?_⟩
      cases h.eq_of_error failed
      rw [none_left] at failed
      cases failed
    · rw [aborted.verdict_eq]
      exact iff_of_false (by simp) fun ⟨_, sound⟩ => sound total beyond _ failed
  · rw [(h.running begun earlier).verdict_eq]
    refine iff_of_false (by simp) fun ⟨⟨step, before, none_left⟩, _⟩ => ?_
    obtain ⟨event, handed⟩ := h.events step (Nat.lt_of_lt_of_le before earlier)
    rw [none_left] at handed
    cases handed

theorem isFinished_iff (h : session.EndsOnce origin total) (begun : session.Running origin [])
    (steps : Nat) : (session.after steps).isFinished = true ↔ total < steps := by
  rcases Nat.lt_or_ge total steps with beyond | earlier
  · rw [h.after_eq beyond]
    refine iff_of_true ?_ beyond
    rcases h.ending with ⟨-, concluded⟩ | ⟨fault, -, aborted⟩
    · rw [isFinished, concluded.halted, concluded.outbox_eq]
      rfl
    · rw [isFinished, aborted.halted_eq, aborted.outbox_eq]
      rfl
  · rw [isFinished, (h.running begun earlier).halted_eq]
    exact iff_of_false (by simp) (Nat.not_lt.mpr earlier)

end EndsOnce

/-- A session that stays as it is without a verdict has no trace to show. -/
theorem finish_of_idle (idle : session.step = (.ok none, session))
    (unjudged : session.verdict = none) : session.finish =
      .error { kind := .internal, message := "step session ended without a verdict" } := by
  have collected : session.collect = ([], .ok session) := by
    rw [collect, collectAfter]
    split
    · next failed => rw [idle] at failed; cases failed
    · next ended => rw [idle] at ended; cases ended; rfl
    · next handed => rw [idle] at handed; cases handed
  rw [finish, collected]
  simp only [unjudged]

end

end Session

/-- What a fault finds when it ends a session: it comes at a machine that has kept all the events it
ever caused, and these are the ones that were returned. -/
structure Session.NothingLost (session : Session) (last : Nat) (report : Diagnostic) : Prop where
  all_returned : ∃ machine fault,
    Machine.Reaches session.program (.start session.startRule session.text) machine ∧
    machine.Faults session.program fault ∧
    report = fault.diagnostic.withSource (inputSource session.text) ∧
    machine.outbox = session.returned last
  emitted_eq : (session.after (last + 1)).machine.emitted = (session.returned last).length
  outbox_eq : (session.after (last + 1)).machine.outbox = []

/-- A session ends once and for good. Whatever is done in a unit of work counts, also if it fails.
No two steps return an error. When one does, all events that the machine ever caused have been
returned before; there is no verdict at any time and so no outcome, and the session is of no use for
a trace. After the first step that returns no event nothing changes any more. A session has a
verdict exactly if a step has returned that nothing is left, and none has returned an error. -/
theorem ending_of_session {program : Program} {start text : String} {session : Session}
    (opened : program.session start text = .ok session) :
    (∀ steps, (session.after steps).Yields (session.after steps).step) ∧
    (∀ first second report report', (session.after first).step.1 = .error report →
      (session.after second).step.1 = .error report' → first = second) ∧
    (∀ last report, (session.after last).step.1 = .error report →
      session.NothingLost last report ∧
      (∀ steps, (session.after steps).verdict = none ∧ (session.after steps).outcome? = none) ∧
      ∀ later, last < later → (session.after later).finish =
        .error { kind := .internal, message := "step session ended without a verdict" }) ∧
    (∀ last, (∀ event, (session.after last).step.1 ≠ .ok (some event)) → ∀ later, last < later →
      (session.after later).step.1 = .ok none ∧
        session.after later = session.after (last + 1) ∧
        (session.after later).isFinished = true) ∧
    ∀ steps, (session.after steps).verdict.isSome = true ↔
      (∃ step < steps, (session.after step).step.1 = .ok none) ∧
        ∀ step < steps, ∀ report, (session.after step).step.1 ≠ .error report := by
  cases Session.eq_opened opened
  have begun := Session.running_opened program start text
  obtain ⟨total, ends⟩ := begun.endsOnce
  refine ⟨fun steps => (Session.returns_after program start text steps).yields,
    fun first second report report' failed failed' =>
      (ends.eq_of_error failed).trans (ends.eq_of_error failed').symm,
    fun last report failed => ?_, fun last no_event later beyond => ?_, ends.verdict_iff begun⟩
  · obtain rfl := ends.eq_of_error failed
    obtain ⟨fault, report_eq, aborted⟩ := ends.aborted failed
    obtain ⟨stack, reached, faults⟩ := aborted.reached
    have program_eq := ((Session.opened program start text).after_same (last + 1)).1
    rw [program_eq] at reached faults
    have emitted_eq := (Machine.Backed.of_reaches reached).emitted_eq
    have unjudged (steps : Nat) :
        ((Session.opened program start text).after steps).verdict = none := by
      rw [← Option.not_isSome_iff_eq_none, ends.verdict_iff begun]
      rintro ⟨⟨step, before, none_left⟩, sound⟩
      have le := ends.le_of_no_event fun event handed => by
        rw [none_left] at handed
        cases handed
      exact sound last (Nat.lt_of_le_of_lt le before) report failed
    refine ⟨⟨⟨_, fault, reached, faults, report_eq, ?_⟩, ?_, aborted.outbox_eq⟩, fun steps => ?_,
      fun later beyond => ?_⟩
    · rw [Machine.preceded, aborted.outbox_eq, List.append_nil]
    · rw [Machine.preceded, aborted.outbox_eq, List.append_nil] at emitted_eq
      exact emitted_eq
    · rw [Session.outcome?, unjudged steps]
      exact ⟨rfl, rfl⟩
    · exact Session.finish_of_idle (ends.idle later beyond) (unjudged later)
  · have le := ends.le_of_no_event no_event
    have past := Nat.lt_of_le_of_lt le beyond
    refine ⟨by rw [ends.idle later past], ?_, (ends.isFinished_iff begun later).mpr past⟩
    rw [ends.after_eq past, ends.after_eq (Nat.lt_succ_of_le le)]

/-- A rule whose second part calls a rule that is not there. -/
def halfway : Program where
  rules := ⟨[("word", some (.tagged "word"
    (.append (.append .empty (some "head") (.literal "a")) none (.call "tail"))))]⟩
  maxDepth := 3

/-- The eight events up to the head of a word are returned before the missing rule is reported. -/
theorem ending_of_halfway : ∃ session report, halfway.session "word" "ab" = .ok session ∧
    (session.after 8).step.1 = .error report ∧ (session.returned 8).length = 8 ∧
    session.NothingLost 8 report ∧ (session.after 9).verdict = none ∧
    (session.after 9).finish =
      .error { kind := .internal, message := "step session ended without a verdict" } := by
  have opened : halfway.session "word" "ab" = .ok (.opened halfway "word" "ab") := rfl
  have failed : ((Session.opened halfway "word" "ab").after 8).step.1 =
      .error ((Fault.unresolved "tail").diagnostic.withSource (inputSource "ab")) := by cbv
  have returned_length : ((Session.opened halfway "word" "ab").returned 8).length = 8 := by cbv
  obtain ⟨-, -, at_error, -⟩ := ending_of_session opened
  obtain ⟨lost, unjudged, useless⟩ := at_error 8 _ failed
  exact ⟨_, _, opened, failed, returned_length, lost, (unjudged 9).1, useless 9 (by decide)⟩

end TracedGrammar

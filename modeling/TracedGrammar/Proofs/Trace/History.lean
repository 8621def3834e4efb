import TracedGrammar.Proofs.Trace.Simulation
import TracedGrammar.Trace.Session

/-!
# What a session has done so far

A session takes events out of the queue of its machine as it goes. Putting those that it returned
back in front gives a machine that has kept all its events, and that one does exactly the units of
work that the machine does on its own (`Machine.advance_preceded`). So each stage of a session
stands for a machine reached from the start: `Session.Running` before the end, `Session.Concluded`
with a verdict and `Session.Aborted` after a fault.

Main statements: `Session.stage_after`, for any number of steps, and `Session.Running.collected`,
for a session that is run to its end.
-/

namespace TracedGrammar

namespace Machine

/-- The machine with events in its queue before all others. -/
def preceded (machine : Machine) (earlier : List Event) : Machine :=
  { machine with outbox := earlier ++ machine.outbox }

section

variable {program : Program} {machine first second : Machine} {earlier events : List Event}
  {node : NodeId}

@[simp] theorem emit_preceded :
    (machine.preceded earlier).emit events = (machine.emit events).preceded earlier := by
  simp only [emit, preceded, List.append_assoc]

@[simp] theorem push_preceded (frame : Frame) :
    (machine.preceded earlier).push frame = (machine.push frame).preceded earlier :=
  rfl

@[simp] theorem finish_preceded (matched : Bool) :
    (machine.preceded earlier).finish matched = (machine.finish matched).preceded earlier :=
  rfl

@[simp] theorem rollback_preceded (start : Cursor) :
    (machine.preceded earlier).rollback start = (machine.rollback start).preceded earlier := by
  simp only [rollback, emit, preceded, List.append_assoc]

@[simp] theorem display_preceded (text : String) (kind : NodeKind) :
    (machine.preceded earlier).display node text kind =
      (machine.display node text kind).preceded earlier :=
  emit_preceded

@[simp] theorem leaf_preceded (found : Option (String × Cursor)) :
    (machine.preceded earlier).leaf node found = (machine.leaf node found).preceded earlier := by
  cases found with
  | none => rfl
  | some found => simp only [leaf, display, emit, finish, preceded, List.append_assoc]

@[simp] theorem attempt_preceded (atLeastOne : Bool) (body : Expr) (number budget : Nat) :
    (machine.preceded earlier).attempt atLeastOne body node number budget =
      (machine.attempt atLeastOne body node number budget).preceded earlier := by
  simp only [attempt, allocate, emit, push, preceded, List.append_assoc]

@[simp] theorem next_part_preceded (pending : List (Expr × NodeId)) :
    (machine.preceded earlier).nextPart pending =
      (machine.nextPart pending).preceded earlier := by
  cases pending <;> rfl

@[simp] theorem next_alternative_preceded (start : Cursor) (opened : Nat) (pending : List Expr) :
    (machine.preceded earlier).nextAlternative node start opened pending =
      (machine.nextAlternative node start opened pending).preceded earlier := by
  cases pending with
  | nil => rfl
  | cons expr pending => simp only [nextAlternative, emit_preceded, push_preceded]

theorem open_parts_preceded (named : Nat) (parts : List (Option String × Expr)) :
    (machine.preceded earlier).openParts node named parts =
      ((machine.openParts node named parts).1,
        (machine.openParts node named parts).2.preceded earlier) := by
  simp only [open_parts_eq, moved, preceded, List.append_assoc]

theorem enter_preceded (subject : Expr) :
    (machine.preceded earlier).enter program subject node =
      (machine.enter program subject node).map (·.preceded earlier) := by
  have same_context : (machine.preceded earlier).context = machine.context := rfl
  have same_emitted : (machine.preceded earlier).emitted = machine.emitted := rfl
  cases subject with
  | call rule =>
      simp only [enter, same_context]
      cases program.rules.resolve? rule with
      | none => rfl
      | some body => cases machine.context.enterRule program.maxDepth rule <;> rfl
  | stringify body | empty | never => rfl
  | append before field part =>
      simp only [enter, open_parts_preceded, next_part_preceded, Except.map]
  | repeated atLeastOne body =>
      simp only [enter, display_preceded, attempt_preceded, Except.map]
      rfl
  | _ =>
      simp only [enter, same_context, same_emitted, leaf_preceded, emit_preceded, display_preceded,
        push_preceded, next_alternative_preceded, Except.map]

/-- Events that were queued earlier have no influence on the work. -/
theorem advance_preceded (frame : Frame) :
    (machine.preceded earlier).advance program frame =
      (machine.advance program frame).map (·.preceded earlier) := by
  have same_context : (machine.preceded earlier).context = machine.context := rfl
  have same_matched : (machine.preceded earlier).matched = machine.matched := rfl
  cases frame with
  | enter subject node => exact enter_preceded subject
  | ruleExit rule => simp only [advance, emit_preceded, Except.map]
  | callReturn => rfl
  | sequence pending =>
      simp only [advance, same_matched, next_part_preceded]
      cases machine.matched <;> rfl
  | choice pending node start opened =>
      simp only [advance, same_matched, rollback_preceded, next_alternative_preceded]
      cases machine.matched <;> rfl
  | stringify node start =>
      simp only [advance, same_matched, same_context, display_preceded]
      cases machine.matched <;> rfl
  | optional node start opened =>
      simp only [advance, same_matched, rollback_preceded, emit_preceded, display_preceded,
        finish_preceded]
      cases machine.matched <;> rfl
  | repeated atLeastOne body node start opened count budget =>
      simp only [advance, same_matched, same_context, rollback_preceded, emit_preceded,
        finish_preceded, attempt_preceded]
      cases machine.matched with
      | false => rfl
      | true =>
          cases machine.context.checkProgress start.offset with
          | error fault => rfl
          | ok _ => cases budget <;> rfl

/-- A machine goes on in one way only. -/
theorem Advances.deterministic (h : Advances program machine first)
    (h' : Advances program machine second) : first = second := by
  obtain ⟨frame, stack, left, done⟩ := h
  obtain ⟨frame', stack', left', done'⟩ := h'
  rw [left] at left'
  cases left'
  rw [done] at done'
  cases done'
  rfl

/-- A machine with nothing left to do stays as it is. -/
theorem Advances.stack_ne_nil (h : Advances program machine first) : machine.stack ≠ [] := by
  obtain ⟨frame, stack, left, done⟩ := h
  simp [left]

theorem Faults.not_advances {fault : Fault} (h : machine.Faults program fault) :
    ¬ Advances program machine first := by
  rintro ⟨frame, stack, left, done⟩
  obtain ⟨frame', stack', left', failed⟩ := h
  rw [left] at left'
  cases left'
  rw [done] at failed
  cases failed

theorem Faults.deterministic {fault fault' : Fault} (h : machine.Faults program fault)
    (h' : machine.Faults program fault') : fault = fault' := by
  obtain ⟨frame, stack, left, failed⟩ := h
  obtain ⟨frame', stack', left', failed'⟩ := h'
  rw [left] at left'
  cases left'
  rw [failed] at failed'
  cases failed'
  rfl

/-- Of two machines that are reached from the same one, one reaches the other. -/
theorem Reaches.total (h : Reaches program machine first) (h' : Reaches program machine second) :
    Reaches program first second ∨ Reaches program second first :=
  Relation.ReflTransGen.total_of_right_unique (fun _ _ _ done done' => done.deterministic done') h h'

/-- Two machines that cannot go on are the same if they are reached from the same one. -/
theorem Reaches.eq_of_stuck (h : Reaches program machine first)
    (h' : Reaches program machine second)
    (stuck : ∀ after, ¬ Advances program first after)
    (stuck' : ∀ after, ¬ Advances program second after) : first = second := by
  -- one machine reaches the other, and since it cannot go on they are the same
  rcases h.total h' with onward | onward
  · rcases onward.cases_head with same | ⟨after, next, -⟩
    · exact same
    · exact absurd next (stuck after)
  · rcases onward.cases_head with same | ⟨after, next, -⟩
    · exact same.symm
    · exact absurd next (stuck' after)

end

end Machine

namespace Session

/-- The session after a number of steps. -/
def after (session : Session) : Nat → Session
  | 0 => session
  | steps + 1 => (session.after steps).step.2

/-- The event that a step returned, if it did. -/
def event? : Except Diagnostic (Option Event) → Option Event
  | .ok event => event
  | .error _ => none

/-- The events that a number of steps returned. -/
def returned (session : Session) : Nat → List Event
  | 0 => []
  | steps + 1 => session.returned steps ++ (event? (session.after steps).step.1).toList

/-- A match in progress, with the events returned so far. -/
structure Running (origin : Machine) (session : Session) (returned : List Event) : Prop where
  halted_eq : session.halted = false
  verdict_eq : session.verdict = none
  reached : Machine.Reaches session.program origin (session.machine.preceded returned)

/-- A match that came to its end, with all its events returned. -/
structure Concluded (origin : Machine) (session : Session) (returned : List Event) : Prop where
  conclude_eq : session.conclude = session
  outbox_eq : session.machine.outbox = []
  stack_eq : session.machine.stack = []
  reached : Machine.Reaches session.program origin (session.machine.preceded returned)

/-- A match that a fault has ended. What was left to do at the fault is no longer stored. -/
structure Aborted (origin : Machine) (session : Session) (returned : List Event) (fault : Fault) :
    Prop where
  halted_eq : session.halted = true
  verdict_eq : session.verdict = none
  outbox_eq : session.machine.outbox = []
  reached : ∃ stack,
    Machine.Reaches session.program origin
      (Machine.preceded { session.machine with stack } returned) ∧
    (Machine.preceded { session.machine with stack } returned).Faults session.program fault

/-- Where a session stands that returned some events. -/
inductive Stage (origin : Machine) (session : Session) (returned : List Event) : Prop where
  | running (h : session.Running origin returned)
  | concluded (h : session.Concluded origin returned)
  | aborted (fault : Fault) (h : session.Aborted origin returned fault)

section

variable {session : Session} {origin : Machine} {returned : List Event} {fault : Fault}

/-- A step changes neither the program nor what it is applied to. -/
theorem step_same (session : Session) :
    session.step.2.program = session.program ∧ session.step.2.startRule = session.startRule ∧
      session.step.2.text = session.text := by
  fun_induction Session.step session with
  | case1 session event outbox queued => cases event <;> exact ⟨rfl, rfl, rfl⟩
  | case2 | case3 | case4 => exact ⟨rfl, rfl, rfl⟩
  | case5 session _ _ frame stack left machine done ih => exact ih

/-- What a step of a match in progress can do. -/
theorem Running.step (h : session.Running origin returned) :
    match session.step with
    | (.ok (some event), after) => after.Running origin (returned ++ [event])
    | (.ok none, after) => after.Concluded origin returned
    | (.error diagnostic, after) => ∃ fault, after.Aborted origin returned fault ∧
        diagnostic = fault.diagnostic.withSource (inputSource session.text) := by
  obtain ⟨halted_eq, verdict_eq, reached⟩ := h
  fun_induction Session.step session with
  | case1 session event outbox queued =>
      have same : (Machine.preceded { session.machine with outbox } (returned ++ [event])) =
          session.machine.preceded returned := by
        simp only [Machine.preceded, queued, List.append_assoc, List.singleton_append]
      rw [← same] at reached
      cases event <;> exact ⟨halted_eq, verdict_eq, reached⟩
  | case2 session drained halted => rw [halted_eq] at halted; cases halted
  | case3 session drained running left => exact ⟨rfl, drained, left, reached⟩
  | case4 session drained running frame stack left fault failed =>
      have same : Machine.preceded { session.abort.machine with stack := session.machine.stack }
          returned = session.machine.preceded returned := by
        simp only [abort, Machine.preceded, drained]
      refine ⟨fault, ⟨rfl, verdict_eq, rfl, session.machine.stack, ?_⟩, rfl⟩
      rw [same]
      refine ⟨reached, frame, stack, left, ?_⟩
      exact (Machine.advance_preceded frame).trans (by rw [failed])
  | case5 session drained running frame stack left machine done ih =>
      -- with nothing to hand out the step does a unit of work and starts over
      refine ih halted_eq verdict_eq (reached.tail ⟨frame, stack, left, ?_⟩)
      exact (Machine.advance_preceded frame).trans (by rw [done])

/-- Once a session has halted its steps return nothing. -/
theorem step_halted (halted : session.halted = true) (drained : session.machine.outbox = []) :
    session.step = (.ok none, session) := by
  rw [Session.step]
  split
  · rename_i event outbox queued
    rw [drained] at queued
    cases queued
  · rw [if_pos halted]

theorem Concluded.halted (h : session.Concluded origin returned) : session.halted = true := by
  rw [← h.conclude_eq]
  rfl

/-- A stage goes over into a stage. -/
theorem Stage.step (h : session.Stage origin returned) :
    session.step.2.Stage origin (returned ++ (event? session.step.1).toList) := by
  cases h with
  | running h =>
      have next := h.step
      split at next
      · rename_i event after stepped
        rw [stepped]
        exact .running next
      · rename_i after stepped
        rw [stepped]
        exact .concluded (by simpa [event?] using next)
      · rename_i diagnostic after stepped
        rw [stepped]
        obtain ⟨fault, aborted, -⟩ := next
        exact .aborted fault (by simpa [event?] using aborted)
  | concluded h =>
      rw [step_halted h.halted h.outbox_eq]
      exact .concluded (by simpa [event?] using h)
  | aborted fault h =>
      rw [step_halted h.halted_eq h.outbox_eq]
      exact .aborted fault (by simpa [event?] using h)

/-- After any number of steps a session is in a stage that returned the events that it did. -/
theorem stage_after (h : session.Running origin []) (steps : Nat) :
    (session.after steps).Stage origin (session.returned steps) := by
  induction steps with
  | zero => exact .running h
  | succ steps ih => exact ih.step

theorem after_same (session : Session) (steps : Nat) :
    (session.after steps).program = session.program ∧
      (session.after steps).startRule = session.startRule ∧
      (session.after steps).text = session.text := by
  induction steps with
  | zero => exact ⟨rfl, rfl, rfl⟩
  | succ steps ih =>
      obtain ⟨program_eq, rule_eq, text_eq⟩ := step_same (session.after steps)
      exact ⟨program_eq.trans ih.1, rule_eq.trans ih.2.1, text_eq.trans ih.2.2⟩

/-- In each stage the machine was reached from the start, but for what was left to do. -/
theorem Stage.reached (h : session.Stage origin returned) :
    ∃ stack, Machine.Reaches session.program origin
      (Machine.preceded { session.machine with stack } returned) := by
  cases h with
  | running h => exact ⟨_, h.reached⟩
  | concluded h => exact ⟨_, h.reached⟩
  | aborted fault h =>
      obtain ⟨stack, reached, -⟩ := h.reached
      exact ⟨stack, reached⟩

/-- A session that is run to its end concludes with all its events returned, or a fault ends it. -/
theorem Running.collected {earlier : List Event} (h : session.Running origin earlier.reverse) :
    match session.collectAfter earlier with
    | (events, .ok last) => last.Concluded origin events ∧ last.program = session.program ∧
        last.startRule = session.startRule ∧ last.text = session.text
    | (events, .error diagnostic) => ∃ last fault, Session.Aborted origin last events fault ∧
        last.program = session.program ∧
        diagnostic = fault.diagnostic.withSource (inputSource session.text) := by
  have next := h.step
  have same := session.step_same
  fun_induction collectAfter earlier session with
  | case1 earlier session diagnostic after stepped =>
      rw [stepped] at next same
      obtain ⟨fault, aborted, report⟩ := next
      exact ⟨after, fault, aborted, same.1, report⟩
  | case2 earlier session after stepped =>
      rw [stepped] at next same
      exact ⟨next, same⟩
  | case3 earlier session event after stepped ih =>
      rw [stepped] at next same
      have running : after.Running origin (event :: earlier).reverse := by
        rw [List.reverse_cons]
        exact next
      have rest := ih running running.step after.step_same
      rw [same.1, same.2.1, same.2.2] at rest
      exact rest

theorem after_step (session : Session) (steps : Nat) :
    session.step.2.after steps = session.after (steps + 1) := by
  induction steps with
  | zero => rfl
  | succ steps ih => rw [after, ih, after.eq_def session (steps + 1 + 1)]

/-- If running a session to its end yields a fault, one of its steps returns it. -/
theorem exists_step_of_collect {earlier : List Event} {diagnostic : Diagnostic}
    (h : (session.collectAfter earlier).2 = .error diagnostic) :
    ∃ steps, (session.after steps).step.1 = .error diagnostic := by
  fun_induction collectAfter earlier session with
  | case1 earlier session report after stepped =>
      cases h
      exact ⟨0, congrArg (·.1) stepped⟩
  | case2 => cases h
  | case3 earlier session event after stepped ih =>
      obtain ⟨steps, found⟩ := ih h
      refine ⟨steps + 1, ?_⟩
      rw [← after_step, stepped]
      exact found

/-- A step that returns an error is the one that ends the match by a fault. -/
theorem Stage.aborted_of_step {diagnostic : Diagnostic} (h : session.Stage origin returned)
    (failed : session.step.1 = .error diagnostic) :
    ∃ fault, session.step.2.Aborted origin returned fault ∧
      diagnostic = fault.diagnostic.withSource (inputSource session.text) := by
  cases h with
  | running h =>
      have next := h.step
      rcases stepped : session.step with ⟨result, after⟩
      rw [stepped] at failed next
      cases failed
      exact next
  | concluded h =>
      rw [step_halted h.halted h.outbox_eq] at failed
      cases failed
  | aborted fault h =>
      rw [step_halted h.halted_eq h.outbox_eq] at failed
      cases failed

/-- A session that concluded has the machine that was reached with nothing left to do. -/
theorem Concluded.machine_eq {final : Machine} (h : session.Concluded origin returned)
    (reached : Machine.Reaches session.program origin final) (ended : final.stack = []) :
    session.machine.preceded returned = final :=
  h.reached.eq_of_stuck reached (fun _ next => next.stack_ne_nil h.stack_eq)
    fun _ next => next.stack_ne_nil ended

/-- A match that a fault ends does not come to its end otherwise. -/
theorem Concluded.not_faults {last : Machine} {fault : Fault}
    (h : session.Concluded origin returned)
    (reached : Machine.Reaches session.program origin last) :
    ¬ last.Faults session.program fault := by
  intro faults
  have same := h.reached.eq_of_stuck reached (fun _ next => next.stack_ne_nil h.stack_eq)
    fun _ => faults.not_advances
  obtain ⟨frame, stack, left, -⟩ := faults
  rw [← same] at left
  exact absurd (left.symm.trans h.stack_eq) (by simp)

theorem Aborted.stack_ne_nil {final : Machine} {fault : Fault}
    (h : session.Aborted origin returned fault)
    (reached : Machine.Reaches session.program origin final) : final.stack ≠ [] := by
  intro ended
  obtain ⟨stack, onward, faults⟩ := h.reached
  have same := onward.eq_of_stuck reached (fun _ => faults.not_advances)
    fun _ next => next.stack_ne_nil ended
  obtain ⟨frame, stack', left, -⟩ := faults
  rw [same, ended] at left
  cases left

/-- A match that a fault ends has returned all its events before. -/
theorem Aborted.returned_eq {last : Machine} {fault fault' : Fault} {events : List Event}
    (h : session.Aborted origin returned fault)
    (reached : Machine.Reaches session.program origin last)
    (faults : last.Faults session.program fault') (outbox_eq : last.outbox = events) :
    returned = events := by
  obtain ⟨stack, onward, failed⟩ := h.reached
  have same :=
    onward.eq_of_stuck reached (fun _ => failed.not_advances) fun _ => faults.not_advances
  rw [← outbox_eq, ← same, Machine.preceded, h.outbox_eq, List.append_nil]

theorem Aborted.fault_eq {last : Machine} {fault fault' : Fault}
    (h : session.Aborted origin returned fault)
    (reached : Machine.Reaches session.program origin last)
    (faults : last.Faults session.program fault') : fault = fault' := by
  obtain ⟨stack, onward, failed⟩ := h.reached
  have same :=
    onward.eq_of_stuck reached (fun _ => failed.not_advances) fun _ => faults.not_advances
  rw [same] at failed
  exact failed.deterministic faults

end

/-- The session that is about to match a rule at the start of a text. -/
def opened (program : Program) (rule text : String) : Session :=
  { program, startRule := rule, text, machine := .start rule text }

section

variable {program : Program} {start text : String}

theorem of_declared {body : Expr} (declared : program.rules.resolve? start = some body) :
    program.session start text = .ok (opened program start text) := by
  rw [Program.session, Session.start, declared]
  rfl

theorem eq_opened {session : Session} (h : program.session start text = .ok session) :
    session = opened program start text := by
  unfold Program.session Session.start at h
  split at h
  · cases h
  · cases h
    rfl

theorem running_opened (program : Program) (start text : String) :
    (opened program start text).Running (.start start text) [] :=
  ⟨rfl, rfl, Relation.ReflTransGen.refl⟩

/-- Only a match that came to its end has a verdict. -/
theorem Stage.concluded_of_verdict {session : Session} {origin : Machine} {returned : List Event}
    {verdict : Verdict} (h : session.Stage origin returned)
    (judged : session.verdict = some verdict) : session.Concluded origin returned := by
  cases h with
  | running h => rw [h.verdict_eq] at judged; cases judged
  | concluded h => exact h
  | aborted fault h => rw [h.verdict_eq] at judged; cases judged

/-- As long as no step returned an error a session is under way, or has come to its end. -/
theorem running_or_concluded {session : Session} {origin : Machine} {steps : Nat}
    (h : session.Running origin [])
    (no_error : ∀ step, step < steps → ∀ report, (session.after step).step.1 ≠ .error report) :
    (session.after steps).Running origin (session.returned steps) ∨
      (session.after steps).Concluded origin (session.returned steps) := by
  induction steps with
  | zero => exact .inl h
  | succ steps ih =>
      rw [after, returned]
      -- a session under way goes on as its next step says, a concluded one stays as it is
      rcases ih fun step earlier => no_error step (Nat.lt_succ_of_lt earlier) with now | now
      · have next := now.step
        have sound := no_error steps (Nat.lt_succ_self _)
        split at next
        · rename_i event after stepped
          rw [stepped]
          exact .inl next
        · rename_i after stepped
          rw [stepped]
          exact .inr (by simpa [event?] using next)
        · rename_i report after stepped
          rw [stepped] at sound
          exact absurd rfl (sound report)
      · rw [step_halted now.halted now.outbox_eq]
        exact .inr (by simpa [event?] using now)

/-- The verdict of a session that came to its end is at the place of its cursor, and accepts only at
the end of the text. -/
theorem Concluded.exists_verdict {session : Session} {origin : Machine} {returned : List Event}
    (h : session.Concluded origin returned) :
    ∃ verdict, session.verdict = some verdict ∧ verdict.offset = session.offset ∧
      (verdict.isAccepted = true → session.machine.context.cursor.atEnd = true) := by
  have verdict_eq := congrArg Session.verdict h.conclude_eq
  simp only [conclude] at verdict_eq
  refine ⟨_, verdict_eq.symm, ?_⟩
  split
  · rename_i accepted
    rw [Bool.and_eq_true] at accepted
    exact ⟨rfl, fun _ => accepted.2⟩
  · exact ⟨rfl, fun accepted => by cases accepted⟩

end

end Session

end TracedGrammar

import TracedGrammar.Proofs.Trace.History
import TracedGrammar.Proofs.Trace.Matching

/-!
# Stepping agrees with direct matching

`Program.run` matches by recursion on expressions and calls; a session does the same match in small
units of work with a stack. Both follow one derivation, which `exists_traced` provides for every
rule and text, so they end alike: with the same verdict at the same offset, with the same report of
a rejection, or with the same fault.

The theorem to read first is `session_agrees_with_run`.
-/

namespace TracedGrammar

/-- The machine at the start of a match, without the call of the start rule. -/
def Machine.idle (text : String) : Machine :=
  { context := .start text, stack := [], textLength := text.length }

/-- A session whose last step has been made: its machine stands where direct matching does. -/
structure Session.EndsAs (session : Session) (outcome : Outcome) (context : Context)
    (allocated : Nat) : Prop where
  conclude_eq : session.conclude = session
  context_eq : session.machine.context = context
  matched_eq : session.machine.matched = outcome.isMatch
  allocated_eq : session.machine.allocated = allocated

/-- What a session comes to that is run to its end: the events that it returns, and its verdict or
the report of the fault that came instead. -/
def Session.transcript (session : Session) : List Event × Except Diagnostic (Option Verdict) :=
  (session.collect.1, session.collect.2.map (·.verdict))

/-- How a match of a whole text ends that has this reply. -/
def Reply.ending (text : String) : Reply → Except Diagnostic Verdict
  | .ok outcome after => .ok (if outcome.isMatch = true ∧ after.offset = text.utf8ByteSize
      then .accepted after.offset else .rejected after.offset outcome.isMatch)
  | .error fault _ => .error (fault.diagnostic.withSource (inputSource text))

section

variable {program : Program} {start text : String} {body : Expr}

/-- The machine of a session does what a derivation of the start rule says. -/
theorem ends_of_traced {events : List Event} {count : Nat} {reply : Reply}
    (traced : Traced program (.expr (.call start) .root) 0 (.start text) events count reply) :
    Machine.Ends program (.start start text) (.idle text) events count reply := by
  have room : (Context.start text).cursor.rest.length ≤ text.length := Nat.le_refl _
  exact @Traced.runs _ _ _ _ _ _ _ traced (.idle text) rfl rfl room

/-- A derivation of the start rule leads to a machine that cannot go on. -/
theorem exists_last
    (traced : Traced program (.expr (.call start) .root) 0 (.start text) events count reply) :
    ∃ last : Machine, Machine.Reaches program (.start start text) last ∧
      (∀ after, ¬ Machine.Advances program last after) ∧ last.outbox = events ∧
      last.allocated = count := by
  have ends := ends_of_traced traced
  cases reply with
  | ok outcome context =>
      exact ⟨_, ends, fun _ next => next.stack_ne_nil rfl, List.nil_append _, rfl⟩
  | error fault context =>
      obtain ⟨last, reached, faults, outbox_eq, allocated_eq⟩ := ends
      exact ⟨last, reached, fun _ => faults.not_advances, outbox_eq, allocated_eq⟩

theorem exists_ends (program : Program) (start text : String) :
    ∃ events count,
      Traced program (.expr (.call start) .root) 0 (.start text) events count
        (program.reply (.call start) (.start text)) ∧
      Machine.Ends program (.start start text) (.idle text) events count
        (program.reply (.call start) (.start text)) := by
  obtain ⟨events, count, traced⟩ :=
    exists_traced program (.call start) .root 0 (Context.start text)
  exact ⟨events, count, traced, ends_of_traced traced⟩

/-- A session returns the events of a derivation that comes to an end, and stands at the same
place. -/
theorem collect_of_traced_ok {events : List Event} {allocated : Nat} {outcome : Outcome}
    {context : Context}
    (traced : Traced program (.expr (.call start) .root) 0 (.start text) events allocated
      (.ok outcome context)) :
    ∃ last, (Session.opened program start text).collect = (events, .ok last) ∧
      last.startRule = start ∧ last.text = text ∧ last.EndsAs outcome context allocated := by
  have reached := ends_of_traced traced
  have running : (Session.opened program start text).Running (.start start text)
      ([] : List Event).reverse := Session.running_opened program start text
  have collected := running.collected
  rcases result : (Session.opened program start text).collectAfter [] with
    ⟨returned, diagnostic | last⟩
  · rw [result] at collected
    obtain ⟨last, fault, aborted, program_eq, -⟩ := collected
    exact absurd rfl (aborted.stack_ne_nil (by rw [program_eq]; exact reached))
  · rw [result] at collected
    obtain ⟨concluded, program_eq, rule_eq, text_eq⟩ := collected
    have same := concluded.machine_eq (by rw [program_eq]; exact reached) rfl
    have all_returned : returned = events := by
      have queues := congrArg Machine.outbox same
      rw [Machine.preceded, concluded.outbox_eq, List.append_nil] at queues
      exact queues
    subst all_returned
    exact ⟨last, result, rule_eq, text_eq, concluded.conclude_eq,
      congrArg Machine.context same, congrArg Machine.matched same,
      congrArg Machine.allocated same⟩

/-- A session returns the events of a derivation that ends in a fault, and then the report of it. -/
theorem collect_of_traced_error {events : List Event} {count : Nat} {fault : Fault}
    {context : Context}
    (traced : Traced program (.expr (.call start) .root) 0 (.start text) events count
      (.error fault context)) :
    (Session.opened program start text).collect =
      (events, .error (fault.diagnostic.withSource (inputSource text))) := by
  obtain ⟨stuck, reached, faults, outbox_eq, -⟩ := ends_of_traced traced
  have running : (Session.opened program start text).Running (.start start text)
      ([] : List Event).reverse := Session.running_opened program start text
  have collected := running.collected
  rcases result : (Session.opened program start text).collectAfter [] with
    ⟨returned, diagnostic | last⟩
  · rw [result] at collected
    obtain ⟨last, fault', aborted, program_eq, report⟩ := collected
    have same_fault : fault' = fault :=
      aborted.fault_eq (by rw [program_eq]; exact reached) (by rw [program_eq]; exact faults)
    have all_returned : returned = events :=
      aborted.returned_eq (by rw [program_eq]; exact reached) (by rw [program_eq]; exact faults)
        outbox_eq
    rw [Session.collect, result, report, same_fault, all_returned]
    rfl
  · rw [result] at collected
    obtain ⟨concluded, program_eq, -⟩ := collected
    exact absurd (by rw [program_eq]; exact faults)
      (concluded.not_faults (by rw [program_eq]; exact reached))

/-- Where direct matching comes to an end, a session returns the events of the match and stands at
the same place. -/
theorem collect_of_ok {outcome : Outcome} {context : Context}
    (replied : program.reply (.call start) (.start text) = .ok outcome context) :
    ∃ events allocated last,
      Traced program (.expr (.call start) .root) 0 (.start text) events allocated
        (.ok outcome context) ∧
      (Session.opened program start text).collect = (events, .ok last) ∧
      last.startRule = start ∧ last.text = text ∧ last.EndsAs outcome context allocated := by
  obtain ⟨events, allocated, traced, -⟩ := exists_ends program start text
  rw [replied] at traced
  obtain ⟨last, collected⟩ := collect_of_traced_ok traced
  exact ⟨events, allocated, last, traced, collected⟩

/-- Where direct matching ends in a fault, a session returns the report of it. -/
theorem exists_step_of_error {fault : Fault} {context : Context}
    (replied : program.reply (.call start) (.start text) = .error fault context) :
    ∃ steps, ((Session.opened program start text).after steps).step.1 =
      .error (fault.diagnostic.withSource (inputSource text)) := by
  obtain ⟨events, allocated, traced, -⟩ := exists_ends program start text
  rw [replied] at traced
  exact Session.exists_step_of_collect (congrArg (·.2) (collect_of_traced_error traced))

/-- A session returns no other reports than that of the fault of direct matching. -/
theorem error_of_step {steps : Nat} {diagnostic : Diagnostic}
    (failed : ((Session.opened program start text).after steps).step.1 = .error diagnostic) :
    ∃ fault context, program.reply (.call start) (.start text) = .error fault context ∧
      diagnostic = fault.diagnostic.withSource (inputSource text) := by
  obtain ⟨events, allocated, traced, ends⟩ := exists_ends program start text
  have stage := Session.stage_after (Session.running_opened program start text) steps
  obtain ⟨fault, aborted, report⟩ := stage.aborted_of_step failed
  have program_eq := ((Session.opened program start text).after_same (steps + 1)).1
  have text_eq := ((Session.opened program start text).after_same steps).2.2
  rw [text_eq] at report
  cases replied : program.reply (.call start) (.start text) with
  | ok outcome context =>
      rw [replied] at ends
      exact absurd rfl (aborted.stack_ne_nil (by rw [← Session.after, program_eq]; exact ends))
  | error fault' context =>
      rw [replied] at ends
      obtain ⟨stuck, reached, faults, -⟩ := ends
      have same : fault = fault' :=
        aborted.fault_eq (by rw [← Session.after, program_eq]; exact reached)
          (by rw [← Session.after, program_eq]; exact faults)
      exact ⟨fault', context, rfl, by rw [report, same]; rfl⟩

/-- The verdict of a session that ends where direct matching does. -/
theorem Session.EndsAs.verdict_eq {last : Session} {outcome : Outcome} {context : Context}
    {allocated : Nat} (h : last.EndsAs outcome context allocated)
    (before : (Cursor.start text).Before context.cursor) :
    last.verdict = some (if outcome.isMatch = true ∧ context.offset = text.utf8ByteSize
      then .accepted context.offset else .rejected context.offset outcome.isMatch) := by
  have verdict_eq := congrArg Session.verdict h.conclude_eq
  simp only [Session.conclude, h.context_eq, h.matched_eq, Session.offset] at verdict_eq
  rw [← verdict_eq]
  exact congrArg some (if_congr (by rw [Bool.and_eq_true, before.at_end_iff]; rfl) rfl rfl)

/-- A session that is run to its end returns the events of a derivation, and ends as the reply of it
says. -/
theorem transcript_of_traced {events : List Event} {count : Nat} {reply : Reply}
    (traced : Traced program (.expr (.call start) .root) 0 (.start text) events count reply) :
    (Session.opened program start text).transcript = (events, (reply.ending text).map some) := by
  cases reply with
  | ok outcome context =>
      obtain ⟨last, collected, -, -, ends⟩ := collect_of_traced_ok traced
      rw [Session.transcript, collected]
      exact congrArg (fun verdict => (events, Except.ok verdict)) (ends.verdict_eq traced.before)
  | error fault context =>
      rw [Session.transcript, collect_of_traced_error traced]
      rfl

/-- Where direct matching of a declared rule comes to an end it has a trace, with the verdict that
the match amounts to. -/
theorem Program.trace_of_reply {outcome : Outcome} {context : Context}
    (declared : program.rules.resolve? start = some body)
    (replied : program.reply (.call start) (.start text) = .ok outcome context) :
    ∃ events, program.trace start text =
      .ok ⟨events, if outcome.isMatch = true ∧ context.offset = text.utf8ByteSize
        then .accepted context.offset else .rejected context.offset outcome.isMatch⟩ := by
  obtain ⟨events, allocated, last, traced, collected, -, -, ends⟩ := collect_of_ok replied
  have verdict_eq := ends.verdict_eq traced.before
  refine ⟨events, ?_⟩
  rw [Program.trace, Session.of_declared declared]
  simp only [Session.finish, collected, verdict_eq]

/-- Where the direct run comes to an end, a session has the verdict that the run amounts to, and the
outcome that a parse yields. -/
theorem collect_of_run {outcome : Outcome} {offset : Nat}
    (ran : program.run start text = .ok (outcome, offset)) :
    ∃ events last, (Session.opened program start text).collect = (events, .ok last) ∧
      last.verdict = some (if outcome.isMatch = true ∧ offset = text.utf8ByteSize
        then .accepted offset else .rejected offset outcome.isMatch) ∧
      last.outcome? = some ((program.parse start text).map fun _ => offset) := by
  obtain ⟨body, context, -, replied, rfl⟩ := reply_of_run ran
  obtain ⟨events, allocated, last, traced, collected, rule_eq, text_eq, ends⟩ :=
    collect_of_ok replied
  have verdict_eq := ends.verdict_eq traced.before
  refine ⟨events, last, collected, verdict_eq, ?_⟩
  rw [Session.outcome?, verdict_eq, rule_eq, text_eq, Program.parse, ran]
  cases outcome with
  | failed captured => simp [Outcome.isMatch, Except.map]
  | matched value =>
      by_cases whole : context.offset = text.utf8ByteSize
      · simp [Outcome.isMatch, whole, Except.map]
      · simp [Outcome.isMatch, whole, Except.map]

/-- The machine that has nothing left to do, if it takes fewer than the given number of units of
work and no fault ends it. -/
def Machine.finished? (program : Program) : (units : Nat) → Machine → Option Machine
  | 0, _ => none
  | units + 1, machine =>
      match machine.stack with
      | [] => some machine
      | frame :: stack =>
          match { machine with stack }.advance program frame with
          | .ok after => finished? program units after
          | .error _ => none

theorem Machine.reaches_of_finished {units : Nat} {machine final : Machine}
    (finished : machine.finished? program units = some final) :
    Machine.Reaches program machine final ∧ final.stack = [] := by
  induction units generalizing machine with
  | zero => cases finished
  | succ units ih =>
      rw [Machine.finished?] at finished
      split at finished
      · rename_i ended
        cases finished
        exact ⟨.refl, ended⟩
      · rename_i frame stack left
        split at finished
        · rename_i after done
          obtain ⟨reached, ended⟩ := ih finished
          exact ⟨.head ⟨frame, stack, left, done⟩ reached, ended⟩
        · cases finished

/-- A session that is run to its end gave out the handles that its machine gives out. -/
theorem allocated_of_finished {units count : Nat} {events : List Event} {last : Session}
    (finished : ((Machine.start start text).finished? program units).map (·.allocated) = some count)
    (collected : (Session.opened program start text).collect = (events, .ok last)) :
    last.machine.allocated = count := by
  obtain ⟨final, found, rfl⟩ := Option.map_eq_some_iff.mp finished
  obtain ⟨reached, ended⟩ := Machine.reaches_of_finished found
  have running : (Session.opened program start text).Running (.start start text)
      ([] : List Event).reverse := Session.running_opened program start text
  have stopped := running.collected
  rw [← Session.collect, collected] at stopped
  obtain ⟨concluded, program_eq, -⟩ := stopped
  rw [← concluded.machine_eq (by rw [program_eq]; exact reached) ended]
  rfl

/-- Stepping a declared rule agrees with running it directly. Where the direct run comes to an end,
a session that is run to its end has a verdict that says the same: it accepts or rejects at the
offset of the direct run, and its outcome is what `Program.parse` yields, with the same report of a
rejection. A step of the session returns an error exactly if the direct run ends in a fault, and
then the report is that of the fault. -/
theorem session_agrees_with_run (declared : program.rules.resolve? start = some body) :
    ∃ session, program.session start text = .ok session ∧
      (∀ value offset, program.run start text = .ok (.matched value, offset) →
        ∃ events last, session.collect = (events, .ok last) ∧
          last.verdict = some (if offset = text.utf8ByteSize then .accepted offset
            else .rejected offset true) ∧
          last.outcome? = some ((program.parse start text).map fun _ => offset)) ∧
      (∀ captured offset, program.run start text = .ok (.failed captured, offset) →
        ∃ events last, session.collect = (events, .ok last) ∧
          last.verdict = some (.rejected offset false) ∧
          last.outcome? = some ((program.parse start text).map fun _ => offset)) ∧
      ∀ diagnostic, (∃ steps, (session.after steps).step.1 = .error diagnostic) ↔
        ∃ fault, program.run start text = .error fault ∧
          diagnostic = fault.diagnostic.withSource (inputSource text) := by
  refine ⟨.opened program start text, Session.of_declared declared, ?_, ?_, ?_⟩
  · intro value offset ran
    obtain ⟨events, last, collected, verdict_eq, outcome_eq⟩ := collect_of_run ran
    exact ⟨events, last, collected, by simpa [Outcome.isMatch] using verdict_eq, outcome_eq⟩
  · intro captured offset ran
    obtain ⟨events, last, collected, verdict_eq, outcome_eq⟩ := collect_of_run ran
    exact ⟨events, last, collected, by simpa [Outcome.isMatch] using verdict_eq, outcome_eq⟩
  · intro diagnostic
    constructor
    · rintro ⟨steps, failed⟩
      obtain ⟨fault, context, replied, report⟩ := error_of_step failed
      exact ⟨fault, (run_eq_error_iff declared).mpr ⟨context, replied⟩, report⟩
    · rintro ⟨fault, ran, rfl⟩
      obtain ⟨context, replied⟩ := (run_eq_error_iff declared).mp ran
      exact exists_step_of_error replied

end

/-- A rule whose first alternative reads two characters and gives them back. -/
def givingBack : Program where
  rules := ⟨[("pair", some (.orElse (.orElse .never
    (.append (.append .empty none (.literal "ab")) none (.literal "c"))) (.literal "a")))]⟩
  maxDepth := 1

/-- The rule stops after the first character of a text, in a session as well. -/
theorem session_of_giving_back :
    (givingBack.rules.resolve? "pair").isSome ∧
    ∃ session events last, givingBack.session "pair" "abd" = .ok session ∧
      session.collect = (events, .ok last) ∧ last.verdict = some (.rejected 1 true) := by
  obtain ⟨session, opened, matched, -⟩ :=
    @session_agrees_with_run givingBack "pair" "abd" _ rfl
  obtain ⟨events, last, collected, verdict_eq, -⟩ := matched (.text "a") 1 rfl
  exact ⟨rfl, session, events, last, opened, collected, verdict_eq⟩

end TracedGrammar

import TracedGrammar.Trace.Work

/-!
# Stepping sessions

A session hands out the events of one match one at a time. Each step does just enough work to have
an event, so a driver can pace a match or give it up at any point. Once the last event is out, the
session has a verdict; a fault ends it without one.

Main statement: `step_measure_lt`, that a step that returns an event leaves less to do, which is
why `Session.collectAfter` comes to its end.
-/

namespace TracedGrammar

/-- One match in progress, with what has been seen of it. -/
structure Session where
  program : Program
  startRule : String
  text : String
  machine : Machine
  /-- The rules entered and not yet left, outermost first, as of the last event handed out. -/
  openRules : Array String := #[]
  verdict : Option Verdict := none
  /-- Whether the match is over, by a verdict or by a fault. -/
  halted : Bool := false

/-- All events of a match, and how it ended. -/
structure Trace where
  events : List Event
  verdict : Verdict

namespace Session

/-- A session that is about to match a rule at the start of a text. -/
def start (program : Program) (rule text : String) : Except Fault Session :=
  match program.rules.resolve? rule with
  | none => .error (.unknownStart rule)
  | some _ => .ok { program, startRule := rule, text, machine := .start rule text }

/-- The offset of the cursor. -/
def offset (session : Session) : Nat :=
  session.machine.context.offset

/-- Whether nothing is left to hand out. -/
def isFinished (session : Session) : Bool :=
  session.halted && session.machine.outbox.isEmpty

/-- The session after an event was handed out. -/
def track (session : Session) : Event → Session
  | .ruleEnter rule => { session with openRules := session.openRules.push rule }
  | .ruleExit _ => { session with openRules := session.openRules.pop }
  | _ => session

/-- The session with the verdict of a match that has come to its end. -/
def conclude (session : Session) : Session :=
  let machine := session.machine
  let verdict :=
    if machine.matched && machine.context.cursor.atEnd then Verdict.accepted session.offset
    else .rejected session.offset machine.matched
  { session with verdict := some verdict, halted := true }

/-- The session that a fault has ended. -/
def abort (session : Session) : Session :=
  { session with
    machine := { session.machine with stack := [], outbox := [] }
    halted := true }

/-- Hands out the next event; there is none once the match is over. A fault is reported once. -/
def step (session : Session) : Except Diagnostic (Option Event) × Session :=
  match session.machine.outbox with
  | event :: outbox =>
      (.ok (some event),
        { session with machine := { session.machine with outbox } }.track event)
  | [] =>
      if session.halted then (.ok none, session)
      else
        match _left : session.machine.stack with
        | [] => (.ok none, session.conclude)
        | frame :: stack =>
            match _done : { session.machine with stack }.advance session.program frame with
            | .error fault =>
                (.error (fault.diagnostic.withSource (inputSource session.text)), session.abort)
            | .ok machine => { session with machine }.step
termination_by session.machine.work session.program
decreasing_by
  have lighter := Machine.advance_work _done
  simp only [Machine.push, ← _left] at lighter
  exact lighter

/-- The measure of what a session still has to hand out. -/
def measure (session : Session) : Nat × Nat :=
  (session.machine.work session.program, session.machine.outbox.length)

theorem measure_track (session : Session) (event : Event) :
    (session.track event).measure = session.measure := by
  cases event <;> rfl

/-- A step that hands out an event leaves less to hand out. -/
theorem step_measure_lt {session after : Session} {event : Event}
    (h : session.step = (.ok (some event), after)) :
    Prod.Lex (· < ·) (· < ·) after.measure session.measure := by
  fun_induction Session.step session with
  | case1 session first outbox queued =>
      cases h
      rw [measure_track]
      simp only [measure, queued, List.length_cons]
      exact .right _ (Nat.lt_succ_self _)
  | case2 => cases h
  | case3 => cases h
  | case4 => cases h
  | case5 session _ _ frame stack left machine done ih =>
      have lighter := Machine.advance_work done
      simp only [Machine.push, ← left] at lighter
      have rest := ih h
      rcases Prod.lex_def.mp rest with less | ⟨same, _⟩
      · exact .left _ _ (Nat.lt_trans less lighter)
      · exact .left _ _ (Nat.lt_of_le_of_lt (Nat.le_of_eq same) lighter)

/-- The events handed out earlier, given in reverse, followed by those that are left, with the
session after the last of them or the fault that came instead. -/
def collectAfter (earlier : List Event) (session : Session) :
    List Event × Except Diagnostic Session :=
  match _stepped : session.step with
  | (.error diagnostic, _) => (earlier.reverse, .error diagnostic)
  | (.ok none, after) => (earlier.reverse, .ok after)
  | (.ok (some event), after) => collectAfter (event :: earlier) after
termination_by session.measure
decreasing_by exact step_measure_lt _stepped

/-- The events that are left, with the session after the last of them or the fault that came
instead. -/
def collect (session : Session) : List Event × Except Diagnostic Session :=
  session.collectAfter []

/-- Runs the session to its end. -/
def finish (session : Session) : Except Diagnostic Trace :=
  match session.collect with
  | (_, .error diagnostic) => .error diagnostic
  | (events, .ok last) =>
      match last.verdict with
      | some verdict => .ok { events, verdict }
      | none =>
          .error { kind := .internal, message := "step session ended without a verdict" }

/-- The result of a match with a verdict: the number of bytes consumed, or the report of the
rejection. -/
def outcome? (session : Session) : Option (Except Diagnostic Nat) :=
  session.verdict.map fun
    | .accepted consumed => .ok consumed
    | .rejected offset matched =>
        .error (Rejection.diagnostic ⟨session.startRule, session.text, offset, matched⟩)

end Session

namespace Program

/-- A session that matches a rule at the start of a text. -/
def session (program : Program) (start text : String) : Except Fault Session :=
  Session.start program start text

/-- The events and the verdict of matching a rule at the start of a text. -/
def trace (program : Program) (start text : String) : Except Diagnostic Trace :=
  match program.session start text with
  | .error fault => .error fault.diagnostic
  | .ok session => session.finish

end Program

end TracedGrammar

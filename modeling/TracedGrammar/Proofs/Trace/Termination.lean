import TracedGrammar.Proofs.Trace.Agreement
import TracedGrammar.Proofs.Trace.Consumed

/-!
# Every match ends

Matching has loops without a bound of their own: rules call rules, and a repetition goes on as long
as its items match. What ends them is the limit on nested calls and the demand that each item moves
the cursor. So direct matching has a derivation for every rule and text, and a session returns
finitely many events before it has a verdict or reports a fault.

The machine counts the items of a repetition down from a budget, which gives it a measure
(`Machine.work`). `Machine.advanceFreely` does without: an item is followed by another one however
many there were. The budget is never used up (`Machine.Funded`), so both do the same in every state
that a match comes to, and each step of a session returns as the free machine has it
(`Session.Returns`).

The theorem to read first is `match_ends`.
-/

namespace TracedGrammar

/-- A repetition has a budget for as many items as there were characters when its item began. -/
def Frame.IsFunded : Frame → Prop
  | repeated _ _ _ start _ _ budget => start.rest.length ≤ budget
  | _ => True

namespace Machine

/-- The unit of work of a frame, where a repetition goes on even if its budget is used up. -/
def advanceFreely (program : Program) (frame : Frame) (machine : Machine) : Except Fault Machine :=
  match frame with
  | .repeated atLeastOne body node start _ count budget =>
      if machine.matched then
        match machine.context.checkProgress start.offset with
        | .error fault => .error fault
        | .ok () => .ok <| machine.attempt atLeastOne body node (count + 1) (budget - 1)
      else machine.advance program frame
  | frame => machine.advance program frame

/-- The budgets of a machine are enough: each repetition on its stack can have an item for every
character that was left when the item before it began. -/
structure Funded (text : String) (machine : Machine) : Prop where
  descends : Descends text machine.context.cursor machine.stack
  length_eq : machine.textLength = text.length
  budgets : ∀ frame ∈ machine.stack, frame.IsFunded

/-- A unit of work puts frames on the stack whose budgets are enough. -/
def FundedAfter (machine after : Machine) : Prop :=
  after.textLength = machine.textLength ∧
    ∃ pushed, after.stack = pushed ++ machine.stack ∧ ∀ frame ∈ pushed, frame.IsFunded

section

variable {program : Program} {text : String} {machine after : Machine} {frame : Frame}

/-- A cursor of a text has no more characters after it than the text has. -/
theorem Funded.room (h : machine.Funded text) :
    machine.context.cursor.rest.length ≤ machine.textLength := by
  rw [h.length_eq]
  exact h.descends.begun.length_le

/-- What was handed out has no part in the budgets, nor has the place of the frame on top. -/
theorem Funded.of_left {earlier : List Event} {stack : List Frame}
    (h : (machine.preceded earlier).Funded text) (left : machine.stack = frame :: stack) :
    (Machine.push { machine with stack } frame).Funded text := by
  rw [push, ← left]
  exact ⟨h.descends, h.length_eq, h.budgets⟩

/-- The first item of a repetition is funded by the length of the text, a further one by what is
left of the budget. -/
theorem attempt_funded {atLeastOne : Bool} {body : Expr} {node : NodeId} {count budget : Nat}
    (enough : machine.context.cursor.rest.length ≤ budget) :
    machine.FundedAfter (machine.attempt atLeastOne body node count budget) := by
  refine ⟨rfl, [_, _], rfl, ?_⟩
  intro frame among
  rcases List.mem_cons.mp among with rfl | among
  · trivial
  · cases List.mem_singleton.mp among
    exact enough

theorem next_part_funded (machine : Machine) (pending : List (Expr × NodeId)) :
    machine.FundedAfter (machine.nextPart pending) := by
  cases pending with
  | nil => exact ⟨rfl, [], rfl, by simp⟩
  | cons part pending => exact ⟨rfl, [_, _], rfl, by simp [Frame.IsFunded]⟩

theorem next_alternative_funded (machine : Machine) (node : NodeId) (start : Cursor) (opened : Nat)
    (pending : List Expr) :
    machine.FundedAfter (machine.nextAlternative node start opened pending) := by
  cases pending with
  | nil => exact ⟨rfl, [], rfl, by simp⟩
  | cons subject pending => exact ⟨rfl, [_, _], rfl, by simp [Frame.IsFunded]⟩

theorem enter_funded {subject : Expr} {node : NodeId}
    (room : machine.context.cursor.rest.length ≤ machine.textLength)
    (entered : machine.enter program subject node = .ok after) : machine.FundedAfter after := by
  cases subject with
  | literal wanted =>
      cases entered
      cases machine.context.cursor.eatLiteral? wanted <;> exact ⟨rfl, [], rfl, by simp⟩
  | charClass set =>
      cases entered
      cases machine.context.cursor.eatChar? set.accepts <;> exact ⟨rfl, [], rfl, by simp⟩
  | call rule =>
      simp only [Machine.enter] at entered
      split at entered
      · cases entered
      · split at entered <;> cases entered
        exact ⟨rfl, [_, _], rfl, by simp [Frame.IsFunded]⟩
  | repeated atLeastOne body =>
      cases entered
      have shown : (machine.display node "[]" .list).context.cursor.rest.length ≤
          machine.textLength := room
      exact attempt_funded shown
  | append before field part =>
      cases entered
      rw [open_parts_eq]
      exact next_part_funded (machine.moved machine.context _ _ machine.matched) _
  | orElse before alternative =>
      cases entered
      exact next_alternative_funded machine node _ _ _
  | empty | never =>
      cases entered
      exact ⟨rfl, [], rfl, by simp⟩
  | located span body =>
      cases entered
      exact ⟨rfl, [_], rfl, by simp [Frame.IsFunded]⟩
  | stringify body | optional body | tagged _ body | untagged _ body =>
      cases entered
      exact ⟨rfl, [_, _], rfl, by simp [Frame.IsFunded]⟩

/-- An item that moved the cursor was one that the budget had room for. -/
theorem Funded.positive {atLeastOne : Bool} {body : Expr} {node : NodeId} {start : Cursor}
    {opened count budget : Nat}
    (h : (machine.push (.repeated atLeastOne body node start opened count budget)).Funded text)
    (moves : machine.context.checkProgress start.offset = .ok ()) :
    machine.context.cursor.rest.length < budget := by
  have on_way : start.Before machine.context.cursor := ((descends_saved rfl).mp h.descends).1
  have enough : start.rest.length ≤ budget := h.budgets _ List.mem_cons_self
  have moved : machine.context.cursor.offset ≠ start.offset := by
    intro same
    rw [Context.checkProgress, Context.offset, if_pos same] at moves
    cases moves
  exact (on_way.length_lt moved).trans_le enough

/-- Where the budgets are enough, doing without them is the same. -/
theorem Funded.advance_freely_eq (h : (machine.push frame).Funded text) :
    machine.advanceFreely program frame = machine.advance program frame := by
  cases frame with
  | repeated atLeastOne body node start opened count budget =>
      cases missed : machine.matched with
      | false => rw [advanceFreely, missed, if_neg Bool.false_ne_true]
      | true =>
          simp only [advanceFreely, advance, missed, if_true]
          cases moves : machine.context.checkProgress start.offset with
          | error fault => rfl
          | ok _ =>
              obtain ⟨fewer, rfl⟩ : ∃ fewer, budget = fewer + 1 :=
                Nat.exists_eq_succ_of_ne_zero (Nat.ne_zero_of_lt (h.positive moves))
              rfl
  | _ => rfl

theorem advance_funded (h : (machine.push frame).Funded text)
    (done : machine.advance program frame = .ok after) : machine.FundedAfter after := by
  cases frame with
  | enter subject node => exact enter_funded h.room done
  | repeated atLeastOne body node start opened count budget =>
      simp only [advance] at done
      split at done
      · split at done <;> cases done
        rename_i fewer moves
        exact attempt_funded (Nat.le_of_lt_succ (h.positive moves))
      · cases done
        exact ⟨rfl, [], rfl, by simp⟩
  | sequence pending =>
      cases done
      split
      · exact next_part_funded machine pending
      · exact ⟨rfl, [], rfl, by simp⟩
  | choice pending node start opened =>
      cases done
      split
      · exact ⟨rfl, [], rfl, by simp⟩
      · exact next_alternative_funded (machine.rollback start) node start opened pending
  | stringify node start =>
      simp only [advance] at done
      split at done <;> cases done <;> exact ⟨rfl, [], rfl, by simp⟩
  | optional node start opened =>
      simp only [advance] at done
      split at done <;> cases done <;> exact ⟨rfl, [], rfl, by simp⟩
  | ruleExit rule | callReturn =>
      cases done
      exact ⟨rfl, [], rfl, by simp⟩

/-- The budgets stay enough. -/
theorem Funded.of_advances (h : machine.Funded text) (consumed : after.Consumed text)
    (next : Advances program machine after) : after.Funded text := by
  obtain ⟨frame, stack, left, done⟩ := next
  have kept : (machine.preceded []).Funded text := h
  have top := kept.of_left left
  obtain ⟨length_eq, pushed, stack_eq, funded⟩ := advance_funded top done
  refine ⟨consumed.descends, length_eq.trans h.length_eq, fun other among => ?_⟩
  rcases List.mem_append.mp (stack_eq ▸ among) with among | among
  · exact funded other among
  · exact top.budgets other (.tail _ among)

/-- A match never comes to a state where a budget is used up. -/
theorem Funded.of_reaches {rule : String} (reached : Reaches program (.start rule text) machine) :
    machine.Funded text := by
  induction reached with
  | refl => exact ⟨(Consumed.start rule text).descends, rfl, by simp [start, Frame.IsFunded]⟩
  | tail before next ih =>
      exact ih.of_advances ((Consumed.start rule text).of_reaches (before.tail next)) next

end

end Machine

namespace Session

/-- How a step comes to return: it hands out what is in the queue, ends a match that has nothing
left to do, or does a unit of work and goes on. Repetitions have no budget here. -/
inductive Returns : Session → Except Diagnostic (Option Event) × Session → Prop where
  | event {session event outbox} (queued : session.machine.outbox = event :: outbox) :
      Returns session (.ok (some event),
        { session with machine := { session.machine with outbox } }.track event)
  | idle {session} (drained : session.machine.outbox = []) (halted : session.halted = true) :
      Returns session (.ok none, session)
  | verdict {session} (drained : session.machine.outbox = []) (running : session.halted = false)
      (left : session.machine.stack = []) : Returns session (.ok none, session.conclude)
  | fault {session frame stack fault} (drained : session.machine.outbox = [])
      (running : session.halted = false) (left : session.machine.stack = frame :: stack)
      (failed : { session.machine with stack }.advanceFreely session.program frame =
        .error fault) :
      Returns session
        (.error (fault.diagnostic.withSource (inputSource session.text)), session.abort)
  | work {session frame stack machine result} (drained : session.machine.outbox = [])
      (running : session.halted = false) (left : session.machine.stack = frame :: stack)
      (done : { session.machine with stack }.advanceFreely session.program frame = .ok machine)
      (rest : Returns { session with machine } result) : Returns session result

/-- A session ends after a number of events: each step before returns one, and the step after them
comes with a verdict or reports a fault. From then on nothing happens. -/
structure EndsAfter (session : Session) (total : Nat) : Prop where
  events : ∀ step, step < total → ∃ event, (session.after step).step.1 = .ok (some event)
  last : (session.after total).step.1 = .ok none ∧
      (session.after (total + 1)).verdict.isSome = true ∨
    ∃ fault : Fault, (session.after total).step.1 =
      .error (fault.diagnostic.withSource (inputSource session.text))
  idle : ∀ step, total < step → (session.after step).step = (.ok none, session.after step)

section

variable {session : Session} {origin : Machine} {rule text : String}
  {earlier returned : List Event}

/-- A step of a match returns without budgets. -/
theorem returns_of_reached (reached : Machine.Reaches session.program (.start rule text)
      (session.machine.preceded returned)) : session.Returns session.step := by
  fun_induction Session.step session with
  | case1 session event outbox queued => exact .event queued
  | case2 session drained halted => exact .idle drained halted
  | case3 session drained running left => exact .verdict drained (by simpa using running) left
  | case4 session drained running frame stack left fault failed =>
      have funded := (Machine.Funded.of_reaches reached).of_left left
      exact .fault drained (by simpa using running) left (funded.advance_freely_eq.trans failed)
  | case5 session drained running frame stack left machine done ih =>
      have funded := (Machine.Funded.of_reaches reached).of_left left
      have next : Machine.Advances session.program (session.machine.preceded returned)
          (machine.preceded returned) :=
        ⟨frame, stack, left, (Machine.advance_preceded frame).trans (by rw [done])⟩
      exact .work drained (by simpa using running) left (funded.advance_freely_eq.trans done)
        (ih (reached.tail next))

/-- Every step of a session returns without budgets. -/
theorem returns_after (program : Program) (rule text : String) (steps : Nat) :
    ((opened program rule text).after steps).Returns ((opened program rule text).after steps).step
    := by
  cases stage_after (running_opened program rule text) steps with
  | running h => exact returns_of_reached h.reached
  | concluded h => exact returns_of_reached h.reached
  | aborted fault h =>
      rw [step_halted h.halted_eq h.outbox_eq]
      exact .idle h.outbox_eq h.halted_eq

theorem after_halted (halted : session.halted = true) (drained : session.machine.outbox = [])
    (steps : Nat) : session.after steps = session := by
  induction steps with
  | zero => rfl
  | succ steps ih => rw [after, ih, step_halted halted drained]

/-- A session that has halted with its first step is idle from then on. -/
theorem idle_of_halted (halted : session.step.2.halted = true)
    (drained : session.step.2.machine.outbox = []) (step : Nat) (later : 0 < step) :
    (session.after step).step = (.ok none, session.after step) := by
  obtain ⟨fewer, rfl⟩ := Nat.exists_eq_succ_of_ne_zero later.ne'
  rw [Nat.succ_eq_add_one, ← after_step, after_halted halted drained, step_halted halted drained]

theorem returned_succ (session : Session) (steps : Nat) :
    session.returned (steps + 1) =
      (event? session.step.1).toList ++ session.step.2.returned steps := by
  induction steps with
  | zero => simp [returned, after]
  | succ steps ih =>
      rw [returned, ih, returned, after_step, List.append_assoc]

/-- One event more. -/
theorem EndsAfter.of_step {total : Nat} {event : Event}
    (h : session.step.2.EndsAfter total) (first : session.step.1 = .ok (some event)) :
    session.EndsAfter (total + 1) := by
  obtain ⟨events, last, idle⟩ := h
  simp only [after_step, session.step_same.2.2] at events last idle
  refine ⟨fun step earlier => ?_, last, fun step later => ?_⟩
  · cases step with
    | zero => exact ⟨event, first⟩
    | succ step => exact events step (Nat.lt_of_succ_lt_succ earlier)
  · obtain ⟨fewer, rfl⟩ := Nat.exists_eq_succ_of_ne_zero (Nat.ne_zero_of_lt later)
    exact idle fewer (Nat.lt_of_succ_lt_succ later)

/-- A session that is run to its end has returned its events one after the other, and ends after
them. -/
theorem Running.ends (h : session.Running origin earlier.reverse) :
    ∃ total, session.EndsAfter total ∧
      (session.collectAfter earlier).1 = earlier.reverse ++ session.returned total := by
  have next := h.step
  fun_induction collectAfter earlier session with
  | case1 earlier session diagnostic after stepped =>
      rw [stepped] at next
      obtain ⟨fault, aborted, report⟩ := next
      have second : session.step.2 = after := congrArg (·.2) stepped
      refine ⟨0, ⟨by simp, .inr ⟨fault, ?_⟩, idle_of_halted ?_ ?_⟩, by simp [returned]⟩
      · rw [Session.after, stepped, report]
      · rw [second, aborted.halted_eq]
      · rw [second, aborted.outbox_eq]
  | case2 earlier session after stepped =>
      rw [stepped] at next
      obtain ⟨verdict, judged, -⟩ := next.exists_verdict
      have second : session.step.2 = after := congrArg (·.2) stepped
      refine ⟨0, ⟨by simp, .inl ⟨?_, ?_⟩, idle_of_halted ?_ ?_⟩, by simp [returned]⟩
      · rw [Session.after, stepped]
      · rw [Session.after, Session.after, second, judged]
        rfl
      · rw [second, next.halted]
      · rw [second, next.outbox_eq]
  | case3 earlier session event after stepped ih =>
      rw [stepped] at next
      have second : session.step.2 = after := congrArg (·.2) stepped
      have running : after.Running origin (event :: earlier).reverse := by
        rw [List.reverse_cons]
        exact next
      obtain ⟨total, ends, collected⟩ := ih running running.step
      refine ⟨total + 1, (second ▸ ends).of_step (by rw [stepped]), ?_⟩
      rw [collected, returned_succ, stepped]
      simp [event?]

end

end Session

/-- Every match ends, whatever the rules are. An undeclared start rule is reported at once. For a
declared one direct matching has a derivation, which has no bound but the limit on nested calls, and
the run is its reply. A session returns the events of the same derivation and then ends with a
verdict or the report of a fault; and each of its steps returns, also if repetitions had no
budget. -/
theorem match_ends (program : Program) (start text : String) :
    (program.run start text = .error (.unknownStart start) ∧
      program.session start text = .error (.unknownStart start)) ∨
    ∃ events count reply session total,
      Traced program (.expr (.call start) .root) 0 (.start text) events count reply ∧
      program.run start text = reply.result ∧
      program.session start text = .ok session ∧
      session.EndsAfter total ∧ session.returned total = events ∧
      ∀ steps, (session.after steps).Returns (session.after steps).step := by
  cases declared : program.rules.resolve? start with
  | none =>
      left
      rw [Program.run, Program.session, Session.start, declared]
      exact ⟨rfl, rfl⟩
  | some body =>
      right
      obtain ⟨events, count, traced⟩ :=
        exists_traced program (.call start) .root 0 (Context.start text)
      have running : (Session.opened program start text).Running (.start start text)
          ([] : List Event).reverse := Session.running_opened program start text
      obtain ⟨total, ends, collected⟩ := running.ends
      have all : (Session.opened program start text).collect.1 = events := by
        cases replied : program.reply (.call start) (.start text) with
        | ok outcome context =>
            obtain ⟨last, collected, -⟩ := collect_of_traced_ok (replied ▸ traced)
            rw [collected]
        | error fault context => rw [collect_of_traced_error (replied ▸ traced)]
      exact ⟨events, count, _, .opened program start text, total, traced, run_of_declared declared,
        Session.of_declared declared, ends, collected.symm.trans all,
        Session.returns_after program start text⟩

end TracedGrammar

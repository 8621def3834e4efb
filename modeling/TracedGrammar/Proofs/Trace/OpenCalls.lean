import TracedGrammar.Proofs.Trace.Boundaries
import TracedGrammar.Proofs.Trace.NestingLimit

/-!
# The number of open calls

A context counts the rule calls that are open. The count is raised before the body of a rule and
lowered after it, by a subtraction that stops at zero. Direct matching lowers it whatever the reply
of the body is, so an expression leaves it as it found it (`Program.depth_reply`). The machine
lowers it when it comes to the frame below the body, so the frames of that kind on its stack are the
open calls (`Machine.CountsCalls`). In both ways a call that is closed was counted, and no more
calls are counted than the limit allows.

The theorem to read first is `depth_counts_open_calls`.
-/

namespace TracedGrammar

/-- Whether a frame closes a call. -/
def Frame.isReturn : Frame → Bool
  | callReturn => true
  | _ => false

/-- The rule that is called by an expression that is a call. -/
def Expr.called? : Expr → Option String
  | call rule => some rule
  | _ => none

/-- A call that is opened is one more, and was allowed. -/
theorem Context.enterRule_eq_ok_iff {limit : Nat} {rule : String} {context inner : Context} :
    context.enterRule limit rule = .ok inner ↔
      context.depth < limit ∧ inner = { context with depth := context.depth + 1 } := by
  unfold enterRule
  split
  · rename_i full
    exact ⟨nofun, fun opened => absurd full (Nat.not_le_of_lt opened.1)⟩
  · rename_i below
    rw [Except.ok.injEq, eq_comm]
    exact ⟨fun same => ⟨Nat.lt_of_not_le below, same⟩, fun opened => opened.2⟩

namespace Program

/-- Matching one expression comes to start another one while these calls are open, innermost first,
which it has opened itself. -/
inductive StartsInside (program : Program) (origin : Expr × Context) :
    List String → Expr × Context → Prop where
  | origin : StartsInside program origin [] origin
  | next {calls begun started} (within : StartsInside program origin calls begun)
      (starts : program.Starts begun started) :
      StartsInside program origin (begun.1.called?.toList ++ calls) started

variable {program : Program} {start text : String} {begun started : Expr × Context}
  {calls : List String}

/-- Matching an expression leaves as many calls open as it found, whatever its reply. -/
theorem depth_reply (program : Program) (subject : Expr) (context : Context) :
    (program.reply subject context).context.depth = context.depth := by
  obtain ⟨events, count, traced⟩ := exists_traced program subject .root 0 context
  exact traced.depth_eq

theorem depth_of_reply {subject : Expr} {context after : Context} {outcome : Outcome}
    (replied : program.reply subject context = .ok outcome after) :
    after.depth = context.depth := by
  have depth_eq := program.depth_reply subject context
  rwa [replied] at depth_eq

/-- A call replies what the body of its rule does one level deeper, and closes it. -/
theorem reply_call {rule : String} {body : Expr} {context inner : Context}
    (found : program.rules.resolve? rule = some body)
    (entered : context.enterRule program.maxDepth rule = .ok inner) :
    program.reply (.call rule) context = (program.reply body inner).exitRule := by
  obtain ⟨below, rfl⟩ := Context.enterRule_eq_ok_iff.mp entered
  obtain ⟨events, count, traced⟩ := exists_traced program body .root 0
    { context with depth := context.depth + 1 }
  exact (Traced.call found below traced).run_eq

/-- What an expression starts is started with the same calls open, or with one more if it is a
call. -/
theorem Starts.depth_eq (h : program.Starts begun started) :
    started.2.depth = begun.2.depth + begun.1.called?.toList.length := by
  cases h with
  | item items =>
      induction items with
      | refl => rfl
      | tail _ next ih =>
          obtain ⟨⟨value, replied⟩, -⟩ := next
          exact (depth_of_reply replied).trans ih
  | call found entered =>
      obtain ⟨-, rfl⟩ := Context.enterRule_eq_ok_iff.mp entered
      rfl
  | part matched => exact depth_of_reply matched
  | alternative missed =>
      -- putting the cursor back leaves the depth alone
      have kept := depth_of_reply missed
      exact kept
  | stringify | optional | front | first | tagged | untagged | located => rfl

/-- No more calls are opened than the limit allows. -/
theorem Starts.depth_le (h : program.Starts begun started)
    (bounded : begun.2.depth ≤ program.maxDepth) : started.2.depth ≤ program.maxDepth := by
  have depth_eq := h.depth_eq
  cases h with
  | call found entered =>
      obtain ⟨below, rfl⟩ := Context.enterRule_eq_ok_iff.mp entered
      exact below
  | _ =>
      rw [depth_eq]
      exact bounded

/-- The context of an expression that a match comes to start counts the calls that are open then. -/
theorem StartsInside.counted
    (h : program.StartsInside (.call start, .start text) calls started) :
    started.2.depth = calls.length ∧ started.2.depth ≤ program.maxDepth := by
  induction h with
  | origin => exact ⟨rfl, Nat.zero_le _⟩
  | next _ starts ih =>
      obtain ⟨counted, bounded⟩ := ih
      rw [List.length_append, Nat.add_comm, ← counted]
      exact ⟨starts.depth_eq, starts.depth_le bounded⟩

end Program

namespace Machine

/-- The number of calls that a machine has open: each has a frame on the stack that closes it. -/
def openCalls (machine : Machine) : Nat :=
  machine.stack.countP Frame.isReturn

/-- The context of a machine counts its open calls, which are no more than the limit allows. -/
structure CountsCalls (program : Program) (machine : Machine) : Prop where
  depth_eq : machine.context.depth = machine.openCalls
  bounded : machine.context.depth ≤ program.maxDepth

/-- A machine has as many calls open as another one, and counts as many. -/
structure SameCalls (machine after : Machine) : Prop where
  open_eq : after.openCalls = machine.openCalls
  depth_eq : after.context.depth = machine.context.depth

/-- What a unit of work does to the open calls. -/
inductive CallEffect (program : Program) (frame : Frame) (machine after : Machine) : Prop where
  | keeps (plain : frame.isReturn = false) (same : machine.SameCalls after)
  | opens (plain : frame.isReturn = false) (below : machine.context.depth < program.maxDepth)
      (open_eq : after.openCalls = machine.openCalls + 1)
      (depth_eq : after.context.depth = machine.context.depth + 1)
  | closes (returns : frame = .callReturn) (open_eq : after.openCalls = machine.openCalls)
      (context_eq : after.context = machine.context.exitRule)

section

variable {program : Program} {machine after : Machine} {frame : Frame} {node : NodeId}

theorem openCalls_push (machine : Machine) (frame : Frame) :
    (machine.push frame).openCalls = machine.openCalls + if frame.isReturn then 1 else 0 :=
  List.countP_cons

theorem SameCalls.leaf (machine : Machine) (node : NodeId) (found : Option (String × Cursor)) :
    machine.SameCalls (machine.leaf node found) := by
  cases found <;> exact ⟨rfl, rfl⟩

theorem SameCalls.nextPart (machine : Machine) (pending : List (Expr × NodeId)) :
    machine.SameCalls (machine.nextPart pending) := by
  cases pending <;> exact ⟨rfl, rfl⟩

theorem SameCalls.nextAlternative (machine : Machine) (node : NodeId) (start : Cursor)
    (opened : Nat) (pending : List Expr) :
    machine.SameCalls (machine.nextAlternative node start opened pending) := by
  cases pending <;> exact ⟨rfl, rfl⟩

/-- Starting an expression opens a call if the expression is one, and none otherwise. -/
theorem enter_callEffect {subject : Expr}
    (entered : machine.enter program subject node = .ok after) :
    CallEffect program (.enter subject node) machine after := by
  cases subject with
  | call rule =>
      simp only [enter] at entered
      split at entered
      · cases entered
      · split at entered <;> cases entered
        rename_i opened
        obtain ⟨below, rfl⟩ := Context.enterRule_eq_ok_iff.mp opened
        exact .opens rfl below (openCalls_push machine .callReturn) rfl
  | literal | charClass =>
      cases entered
      exact .keeps rfl (.leaf ..)
  | append before field part =>
      cases entered
      rw [open_parts_eq]
      obtain ⟨open_eq, depth_eq⟩ := SameCalls.nextPart (machine.moved machine.context
        (Event.openParts node 0 machine.allocated (Expr.append before field part).parts)
        (machine.allocated + (Expr.append before field part).parts.length) machine.matched) _
      exact .keeps rfl ⟨open_eq, depth_eq⟩
  | orElse before alternative =>
      cases entered
      exact .keeps rfl (.nextAlternative ..)
  | stringify | optional | repeated | empty | never | tagged | untagged | located =>
      cases entered
      exact .keeps rfl ⟨rfl, rfl⟩

/-- A unit of work opens a call, closes one, or does neither. -/
theorem advance_callEffect (done : machine.advance program frame = .ok after) :
    CallEffect program frame machine after := by
  cases frame with
  | enter subject node => exact enter_callEffect done
  | callReturn =>
      cases done
      exact .closes rfl rfl rfl
  | repeated =>
      simp only [advance] at done
      split at done
      · split at done <;> cases done
        exact .keeps rfl ⟨rfl, rfl⟩
      · cases done
        exact .keeps rfl ⟨rfl, rfl⟩
  | sequence pending =>
      cases done
      refine .keeps rfl ?_
      split
      · exact .nextPart machine pending
      · exact ⟨rfl, rfl⟩
  | choice pending node start opened =>
      cases done
      refine .keeps rfl ?_
      split
      · exact ⟨rfl, rfl⟩
      · obtain ⟨open_eq, depth_eq⟩ :=
          SameCalls.nextAlternative (machine.rollback start) node start opened pending
        exact ⟨open_eq, depth_eq⟩
  | stringify | optional =>
      simp only [advance] at done
      split at done <;> cases done <;> exact .keeps rfl ⟨rfl, rfl⟩
  | ruleExit =>
      cases done
      exact .keeps rfl ⟨rfl, rfl⟩

namespace CountsCalls

/-- A call that is closed was counted. -/
theorem positive {below : List Frame} (h : machine.CountsCalls program)
    (returns : machine.stack = .callReturn :: below) : 0 < machine.context.depth := by
  rw [h.depth_eq, openCalls, returns, List.countP_cons_of_pos rfl]
  exact Nat.succ_pos _

/-- A unit of work keeps the count. -/
theorem of_advance (h : (machine.push frame).CountsCalls program)
    (done : machine.advance program frame = .ok after) : after.CountsCalls program := by
  have counted : machine.context.depth =
      machine.openCalls + if frame.isReturn then 1 else 0 :=
    h.depth_eq.trans (openCalls_push machine frame)
  have bounded : machine.context.depth ≤ program.maxDepth := h.bounded
  cases advance_callEffect done with
  | keeps plain same =>
      rw [plain] at counted
      exact ⟨same.depth_eq.trans (counted.trans same.open_eq.symm), same.depth_eq ▸ bounded⟩
  | opens plain below open_eq depth_eq =>
      rw [plain] at counted
      refine ⟨?_, depth_eq ▸ below⟩
      rw [depth_eq, open_eq, counted]
      rfl
  | closes returns open_eq context_eq =>
      -- the frame that was taken off the stack is the one that counted this call
      subst returns
      rw [Frame.isReturn, if_pos rfl] at counted
      constructor
      · calc
          after.context.depth = machine.context.depth - 1 := by rw [context_eq, Context.exitRule]
          _ = machine.openCalls := by rw [counted, Nat.add_sub_cancel]
          _ = after.openCalls := open_eq.symm
      · rw [context_eq]
        exact (Nat.sub_le _ _).trans bounded

theorem of_advances (h : machine.CountsCalls program) (next : Advances program machine after) :
    after.CountsCalls program := by
  obtain ⟨frame, stack, left, done⟩ := next
  have top : (Machine.push { machine with stack } frame).CountsCalls program := by
    rw [push, ← left]
    exact h
  exact top.of_advance done

/-- In each state that a match comes to, the open calls are counted. -/
theorem of_reaches {rule text : String} (reached : Reaches program (.start rule text) machine) :
    machine.CountsCalls program := by
  induction reached with
  | refl => exact ⟨rfl, Nat.zero_le _⟩
  | tail _ next ih => exact ih.of_advances next

end CountsCalls

end

end Machine

/-- As long as a session is under way, its context counts the calls that its machine has open. -/
theorem Session.depth_after (program : Program) (start text : String) (steps : Nat) :
    let now := (opened program start text).after steps
    (now.halted = false → now.machine.context.depth = now.machine.openCalls) ∧
      now.machine.context.depth ≤ program.maxDepth := by
  have stage := stage_after (running_opened program start text) steps
  have program_eq := ((opened program start text).after_same steps).1
  refine ⟨fun going => ?_, ?_⟩
  · cases stage with
    | running h => exact (Machine.CountsCalls.of_reaches h.reached).depth_eq
    | concluded h => exact absurd (h.halted.symm.trans going) (by decide)
    | aborted fault h => exact absurd (h.halted_eq.symm.trans going) (by decide)
  · -- a fault clears the stack and keeps the context
    obtain ⟨stack, reached⟩ := stage.reached
    rw [program_eq] at reached
    exact (Machine.CountsCalls.of_reaches reached).bounded

/-- The depth of a context is the number of calls that are open.

In direct matching every expression leaves the depth as it found it, with any reply. Whenever a
match comes to start an expression the depth is the number of calls around it, which is within the
limit; and a call is closed at the depth that opening it led to, so closing it lowers the depth. In
each state of the machine that a match comes to, the depth is the number of frames on the stack that
close a call, is within the limit, and is not zero when the next frame closes one. So it is between
two steps of a session that has not halted, and it is within the limit afterwards too. -/
theorem depth_counts_open_calls (program : Program) (start text : String) :
    (∀ subject context, (program.reply subject context).context.depth = context.depth) ∧
    (∀ calls started, program.StartsInside (.call start, .start text) calls started →
      started.2.depth = calls.length ∧ started.2.depth ≤ program.maxDepth) ∧
    (∀ rule body context inner, program.rules.resolve? rule = some body →
      context.enterRule program.maxDepth rule = .ok inner →
      program.reply (.call rule) context = (program.reply body inner).exitRule ∧
        (program.reply body inner).context.depth = context.depth + 1) ∧
    (∀ machine, Machine.Reaches program (.start start text) machine →
      machine.context.depth = machine.openCalls ∧ machine.context.depth ≤ program.maxDepth ∧
        ∀ below, machine.stack = .callReturn :: below → 0 < machine.context.depth) ∧
    ∀ session steps, program.session start text = .ok session →
      ((session.after steps).halted = false →
        (session.after steps).machine.context.depth = (session.after steps).machine.openCalls) ∧
      (session.after steps).machine.context.depth ≤ program.maxDepth := by
  refine ⟨program.depth_reply, fun calls started inside => inside.counted, ?_, ?_, ?_⟩
  · intro rule body context inner found entered
    refine ⟨Program.reply_call found entered, (program.depth_reply body inner).trans ?_⟩
    obtain ⟨-, rfl⟩ := Context.enterRule_eq_ok_iff.mp entered
    rfl
  · intro machine reached
    have counts := Machine.CountsCalls.of_reaches reached
    exact ⟨counts.depth_eq, counts.bounded, fun below => counts.positive⟩
  · intro session steps opened
    cases Session.eq_opened opened
    exact Session.depth_after program start text steps

/-- Behind the second bracket two calls are open, in direct matching as in a session. -/
theorem depth_of_brackets :
    (∃ subject context, brackets.StartsInside (.call "nest", .start "(())") ["nest", "nest"]
      (subject, context) ∧ context.depth = 2) ∧
    ∃ session, brackets.session "nest" "(())" = .ok session ∧
      (session.after 9).halted = false ∧ (session.after 9).machine.openCalls = 2 ∧
      (session.after 9).machine.context.depth = 2 := by
  obtain ⟨-, counted, -, -, in_session⟩ := depth_counts_open_calls brackets "nest" "(())"
  constructor
  · have begun : brackets.StartsInside (.call "nest", .start "(())") []
        (.call "nest", .start "(())") := .origin
    have outer := begun.next (.call rfl rfl)
    have part := ((outer.next .tagged).next .front).next (.part rfl)
    have inner := (part.next .optional).next (.call rfl rfl)
    exact ⟨_, _, inner, (counted _ _ inner).1⟩
  · have opened : brackets.session "nest" "(())" = .ok (.opened brackets "nest" "(())") := rfl
    have going : ((Session.opened brackets "nest" "(())").after 9).halted = false := by cbv
    have two : ((Session.opened brackets "nest" "(())").after 9).machine.openCalls = 2 := by cbv
    exact ⟨_, opened, going, two, ((in_session _ 9 opened).1 going).trans two⟩

end TracedGrammar

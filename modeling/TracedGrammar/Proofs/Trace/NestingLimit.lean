import TracedGrammar.Proofs.Trace.SameRules

/-!
# Raising the limit on nested calls

Under a higher limit on nested calls a program has the same rules, and so it has every derivation
that it had, apart from those that end at the limit (`Traced.with_same_rules`). The contexts of a
derivation count the calls that are open, and each task gives back what it opened
(`Traced.depth_eq`). So a call meets the limit because of the calls around it, whatever was tried
and given up before. Direct runs and sessions follow derivations, and come to the same under both
limits.

The theorem to read first is `same_under_higher_limit`.
-/

namespace TracedGrammar

/-- The program under another limit on nested calls. -/
def Program.withMaxDepth (program : Program) (limit : Nat) : Program :=
  { program with maxDepth := limit }

section

variable {program : Program} {limit : Nat} {start text : String} {body : Expr}

/-- A run and a session of a declared rule come to the same under a higher limit, unless the call of
the rule ended at the limit. -/
theorem same_of_declared (declared : program.rules.resolve? start = some body)
    (higher : program.maxDepth ≤ limit)
    (within : ∀ rule offset, (program.reply (.call start) (.start text)).fault? ≠
      some (.tooDeep rule program.maxDepth offset)) :
    (program.withMaxDepth limit).run start text = program.run start text ∧
      (Session.opened (program.withMaxDepth limit) start text).transcript =
        (Session.opened program start text).transcript := by
  have same : program.SameRules (program.withMaxDepth limit) := fun _ => rfl
  exact same.same_of_declared higher declared
    fun rule offset fault_eq => absurd fault_eq (within rule offset)

/-- A higher limit on nested calls changes nothing but the faults at the limit. If a direct run does
not end in such a fault, the run under the higher limit has the same result: the same outcome at the
same offset, or the same other fault. If a session does not end in the report of such a fault, the
session under the higher limit returns the same events, and has the same verdict or the same report
in the end. -/
theorem same_under_higher_limit (program : Program) {limit : Nat}
    (higher : program.maxDepth ≤ limit) (start text : String) :
    ((∀ rule offset, program.run start text ≠ .error (.tooDeep rule program.maxDepth offset)) →
      (program.withMaxDepth limit).run start text = program.run start text) ∧
    ((∀ session rule offset, program.session start text = .ok session →
        session.transcript.2 ≠ .error ((Fault.tooDeep rule program.maxDepth
          offset).diagnostic.withSource (inputSource text))) →
      ((program.withMaxDepth limit).session start text).map Session.transcript =
        (program.session start text).map Session.transcript) := by
  cases declared : program.rules.resolve? start with
  | none =>
      have declared' : (program.withMaxDepth limit).rules.resolve? start = none := declared
      refine ⟨fun _ => ?_, fun _ => ?_⟩
      · simp only [Program.run, declared, declared']
      · simp only [Program.session, Session.start, declared, declared', Except.map]
  | some body =>
      have declared' : (program.withMaxDepth limit).rules.resolve? start = some body := declared
      have opened : program.session start text = .ok (.opened program start text) :=
        Session.of_declared declared
      refine ⟨fun within => ?_, fun within => ?_⟩
      · refine (same_of_declared declared higher fun rule offset fault_eq => ?_).1
        obtain ⟨context, replied⟩ := Reply.fault_eq_some_iff.mp fault_eq
        exact within rule offset ((run_eq_error_iff declared).mpr ⟨context, replied⟩)
      · rw [opened, Session.of_declared declared']
        refine congrArg Except.ok
          (same_of_declared declared higher fun rule offset fault_eq => ?_).2
        obtain ⟨context, replied⟩ := Reply.fault_eq_some_iff.mp fault_eq
        obtain ⟨events, count, traced⟩ :=
          exists_traced program (.call start) .root 0 (Context.start text)
        refine within _ rule offset opened ?_
        rw [transcript_of_traced traced, replied]
        rfl

end

/-- Brackets in brackets, at most three deep. -/
def brackets : Program where
  rules := ⟨[("nest", some (.tagged "nest" (.sequence
    [(none, .literal "("), (some "inner", .optional (.call "nest")), (none, .literal ")")])))]⟩
  maxDepth := 3

/-- The call that finds no further bracket is a third one. -/
example : (brackets.withMaxDepth 2).run "nest" "(())" = .error (.tooDeep "nest" 2 2) := by rfl

/-- Two pairs of brackets need no more than three calls, so nine are as good. -/
theorem brackets_under_higher_limit : ∃ value session,
    brackets.maxDepth ≤ 9 ∧ brackets.run "nest" "(())" = .ok (.matched value, 4) ∧
      (brackets.withMaxDepth 9).run "nest" "(())" = .ok (.matched value, 4) ∧
      brackets.session "nest" "(())" = .ok session ∧
      session.transcript.2 = .ok (some (.accepted 4)) ∧
      ((brackets.withMaxDepth 9).session "nest" "(())").map Session.transcript =
        .ok session.transcript := by
  have higher : brackets.maxDepth ≤ 9 := by decide
  obtain ⟨value, ran⟩ : ∃ value, brackets.run "nest" "(())" = .ok (.matched value, 4) := ⟨_, rfl⟩
  have opened : brackets.session "nest" "(())" = .ok (.opened brackets "nest" "(())") := rfl
  have ended : (Session.opened brackets "nest" "(())").transcript.2 = .ok (some (.accepted 4)) := by
    obtain ⟨events, last, collected, verdict_eq, -⟩ := collect_of_run ran
    rw [Session.transcript, collected]
    exact congrArg Except.ok verdict_eq
  obtain ⟨run_eq, session_eq⟩ := same_under_higher_limit brackets higher "nest" "(())"
  refine ⟨value, _, higher, ran, ?_, opened, ended, ?_⟩
  · rw [run_eq, ran]
    intro rule offset faulty
    cases ran.symm.trans faulty
  · rw [session_eq, opened]
    · rfl
    · intro session rule offset same faulty
      cases opened.symm.trans same
      cases ended.symm.trans faulty

end TracedGrammar

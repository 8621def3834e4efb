import TracedGrammar.Proofs.Trace.Agreement

/-!
# Programs with the same rules

A match asks its program for nothing but the definitions of names and the limit on nested calls. So
a program that defines all names alike has every derivation of another one whose limit is no higher,
apart from those that end at that limit (`Traced.with_same_rules`). Direct runs and sessions follow
derivations, and come to the same for both programs.
-/

namespace TracedGrammar

/-- Another program gives every name the same definition. -/
def Program.SameRules (program other : Program) : Prop :=
  ∀ name, other.rules.resolve? name = program.rules.resolve? name

section

variable {program other : Program} {start text : String} {body : Expr}

/-- With the same rules and no lower limit a task causes the same events and ends in the same reply.
If it ended at the limit, the limits have to be the same. -/
theorem Traced.with_same_rules (same : program.SameRules other)
    (higher : program.maxDepth ≤ other.maxDepth) {task : Task} {count count' : Nat}
    {context : Context} {events : List Event} {reply : Reply}
    (h : Traced program task count context events count' reply)
    (within : ∀ rule offset, reply.fault? = some (.tooDeep rule program.maxDepth offset) →
      other.maxDepth = program.maxDepth) : Traced other task count context events count' reply := by
  -- a part that faults gives its fault to the whole, so what holds for the whole holds for it
  induction h with
  | literal_hit eaten => exact .literal_hit eaten
  | literal_miss eaten => exact .literal_miss eaten
  | class_hit eaten => exact .class_hit eaten
  | class_miss eaten => exact .class_miss eaten
  | stringify_hit _ ih => exact .stringify_hit (ih nofun)
  | stringify_pass _ missed ih => exact .stringify_pass (ih within) missed
  | optional_pass _ hit ih => exact .optional_pass (ih within) hit
  | optional_miss _ ih => exact .optional_miss (ih nofun)
  | repeated _ ih => exact .repeated (ih within)
  | unresolved undefined => exact .unresolved ((same _).trans undefined)
  | too_deep resolved full =>
      have limit_eq := within _ _ rfl
      rw [← limit_eq] at full ⊢
      exact .too_deep ((same _).trans resolved) full
  | call resolved below _ ih =>
      rw [Reply.fault_exitRule] at within
      exact .call ((same _).trans resolved) (below.trans_le higher) (ih within)
  | empty => exact .empty
  | append same _ ih => exact .append same (ih within)
  | never => exact .never
  | orElse _ ih => exact .orElse (ih within)
  | tagged _ ih =>
      rw [Reply.fault_tag] at within
      exact .tagged (ih within)
  | untagged _ ih => exact .untagged (ih within)
  | located _ ih => exact .located (ih within)
  | parts_empty => exact .parts_empty
  | parts_head whole _ ih => exact .parts_head whole (ih within)
  | parts_stop _ missed ih => exact .parts_stop (ih within) missed
  | parts_next _ _ ih ih' =>
      rw [Reply.fault_join] at within
      exact .parts_next (ih nofun) (ih' within)
  | options_never => exact .options_never
  | options_head whole _ ih =>
      rw [Reply.fault_putBack] at within
      exact .options_head whole (ih within)
  | options_stop _ hit ih => exact .options_stop (ih within) hit
  | options_next _ _ ih ih' =>
      rw [Reply.fault_putBack] at within
      exact .options_next (ih nofun) (ih' within)
  | items_fault _ ih => exact .items_fault (ih within)
  | items_end _ ih => exact .items_end (ih nofun)
  | items_stuck _ still ih => exact .items_stuck (ih nofun) still
  | items_more _ moved _ ih ih' => exact .items_more (ih nofun) moved (ih' within)

/-- A run and a session of a declared rule come to the same for a program with the same rules and no
lower limit. If the call of the rule ended at the limit, the limits have to be the same. -/
theorem Program.SameRules.same_of_declared (same : program.SameRules other)
    (higher : program.maxDepth ≤ other.maxDepth)
    (declared : program.rules.resolve? start = some body)
    (within : ∀ rule offset, (program.reply (.call start) (.start text)).fault? =
      some (.tooDeep rule program.maxDepth offset) → other.maxDepth = program.maxDepth) :
    other.run start text = program.run start text ∧
      (Session.opened other start text).transcript =
        (Session.opened program start text).transcript := by
  obtain ⟨events, count, traced⟩ :=
    exists_traced program (.call start) .root 0 (Context.start text)
  have carried := traced.with_same_rules same higher within
  have declared' : other.rules.resolve? start = some body := (same start).trans declared
  constructor
  · rw [run_of_declared declared, run_of_declared declared', carried.run_eq]
  · rw [transcript_of_traced traced, transcript_of_traced carried]

/-- Programs with the same rules and the same limit run alike, and their sessions return the same
events and come to the same end. -/
theorem Program.SameRules.alike (same : program.SameRules other)
    (limit_eq : other.maxDepth = program.maxDepth) (start text : String) :
    other.run start text = program.run start text ∧
      (other.session start text).map Session.transcript =
        (program.session start text).map Session.transcript := by
  cases declared : program.rules.resolve? start with
  | none =>
      have declared' : other.rules.resolve? start = none := (same start).trans declared
      constructor
      · simp only [Program.run, declared, declared']
      · simp only [Program.session, Session.start, declared, declared', Except.map]
  | some body =>
      have declared' : other.rules.resolve? start = some body := (same start).trans declared
      obtain ⟨run_eq, transcript_eq⟩ := @same_of_declared _ _ start text _ same
        (Nat.le_of_eq limit_eq.symm) declared fun _ _ _ => limit_eq
      refine ⟨run_eq, ?_⟩
      rw [Session.of_declared declared, Session.of_declared declared']
      exact congrArg Except.ok transcript_eq

end

end TracedGrammar

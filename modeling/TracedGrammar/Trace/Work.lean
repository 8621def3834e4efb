import TracedGrammar.Trace.Machine

/-!
# The work left to a machine

A measure that every unit of work lowers, so that a machine comes to its end. It weighs the frames
of the stack: an expression by what it can start, where a call may start as much as the heaviest
body one level deeper, and a repetition by the number of items that the text has room for. Levels
are counted from the number of calls that can still be opened, and grow by one below each frame that
closes a call.

Main statement: `advance_work`, that each unit of work lowers `Machine.work`.
-/

namespace TracedGrammar

/-- The weight of a list of pending expressions. -/
def pendingWork (work : α → Nat) : List α → Nat
  | [] => 0
  | item :: pending => work item + 1 + pendingWork work pending

theorem pendingWork_append (work : α → Nat) (first second : List α) :
    pendingWork work (first ++ second) = pendingWork work first + pendingWork work second := by
  induction first with
  | nil => simp [pendingWork]
  | cons item first ih => simp [pendingWork, ih, Nat.add_assoc]

theorem pendingWork_map (work : β → Nat) (f : α → β) (pending : List α) :
    pendingWork work (pending.map f) = pendingWork (fun item => work (f item)) pending := by
  induction pending with
  | nil => rfl
  | cons item pending ih => simp only [List.map_cons, pendingWork, ih]

namespace Expr

/-- The weight of an expression for a given weight of rule calls, in a text of a given length. -/
def workWith (textLength : Nat) (callWork : String → Nat) : Expr → Nat
  | literal _ | charClass _ | empty | never => 1
  | stringify body | optional body | tagged _ body | untagged _ body | located _ body =>
      body.workWith textLength callWork + 2
  | repeated _ body => (textLength + 1) * (body.workWith textLength callWork + 2) + 1
  | call rule => callWork rule
  | append before _ part | orElse before part =>
      before.workWith textLength callWork + part.workWith textLength callWork + 3

/-- The weight of an expression where a number of calls can still be opened. -/
def work (rules : Registry Expr) (textLength : Nat) : (levels : Nat) → Expr → Nat
  | 0 => workWith textLength fun _ => 1
  | levels + 1 => workWith textLength fun rule =>
      match rules.resolve? rule with
      | some body => body.work rules textLength levels + 2
      | none => 1

theorem workWith_mono {textLength : Nat} {low high : String → Nat}
    (h : ∀ rule, low rule ≤ high rule) (expr : Expr) :
    expr.workWith textLength low ≤ expr.workWith textLength high := by
  induction expr with
  | literal | charClass | empty | never => exact Nat.le_refl 1
  | stringify _ ih | optional _ ih | tagged _ _ ih | untagged _ _ ih | located _ _ ih =>
      exact Nat.add_le_add_right ih 2
  | repeated _ _ ih =>
      exact Nat.add_le_add_right (Nat.mul_le_mul_left _ (Nat.add_le_add_right ih 2)) 1
  | call rule => exact h rule
  | append _ _ _ left right | orElse _ _ left right =>
      exact Nat.add_le_add_right (Nat.add_le_add left right) 3

theorem work_succ_le (rules : Registry Expr) (textLength levels : Nat) (expr : Expr) :
    expr.work rules textLength levels ≤ expr.work rules textLength (levels + 1) := by
  induction levels generalizing expr with
  | zero =>
      apply workWith_mono
      intro rule
      split <;> omega
  | succ levels ih =>
      apply workWith_mono
      intro rule
      split
      · exact Nat.add_le_add_right (ih _) 2
      · exact Nat.le_refl 1

/-- The weight is the weight for some weight of rule calls. -/
theorem work_eq_workWith (rules : Registry Expr) (textLength levels : Nat) :
    ∃ callWork, ∀ expr, work rules textLength levels expr = workWith textLength callWork expr := by
  cases levels with
  | zero => exact ⟨_, fun _ => rfl⟩
  | succ levels => exact ⟨_, fun _ => rfl⟩

theorem pendingWork_parts (textLength : Nat) (callWork : String → Nat) (expr : Expr) :
    pendingWork (fun part => part.2.workWith textLength callWork) expr.parts
      ≤ expr.workWith textLength callWork + 1 := by
  induction expr with
  | append before field part ih _ =>
      simp only [pendingWork, parts, pendingWork_append, workWith] at ih ⊢
      omega
  | empty => simp [pendingWork, parts]
  | _ => simp [pendingWork, parts]

theorem pendingWork_alternatives (textLength : Nat) (callWork : String → Nat) (expr : Expr) :
    pendingWork (workWith textLength callWork) expr.alternatives
      ≤ expr.workWith textLength callWork + 1 := by
  induction expr with
  | orElse before alternative ih _ =>
      simp only [pendingWork, alternatives, pendingWork_append, workWith] at ih ⊢
      omega
  | never => simp [pendingWork, alternatives]
  | _ => simp [pendingWork, alternatives]

end Expr

/-- The weight of a frame where a number of calls can still be opened. -/
def Frame.work (rules : Registry Expr) (textLength levels : Nat) : Frame → Nat
  | enter expr _ => expr.work rules textLength levels
  | stringify .. | optional .. | ruleExit _ | callReturn => 1
  | repeated _ body _ _ _ _ budget => budget * (body.work rules textLength levels + 2) + 1
  | sequence pending => pendingWork (fun item => item.1.work rules textLength levels) pending + 1
  | choice pending _ _ _ => pendingWork (Expr.work rules textLength levels) pending + 1

/-- The weight of a stack where a number of calls can still be opened: one more below each frame
that closes a call. -/
def stackWork (rules : Registry Expr) (textLength : Nat) : (levels : Nat) → List Frame → Nat
  | _, [] => 0
  | levels, .callReturn :: stack => stackWork rules textLength (levels + 1) stack + 1
  | levels, frame :: stack =>
      frame.work rules textLength levels + stackWork rules textLength levels stack

theorem pendingWork_mono {low high : α → Nat} (h : ∀ item, low item ≤ high item)
    (pending : List α) : pendingWork low pending ≤ pendingWork high pending := by
  induction pending with
  | nil => exact Nat.le_refl _
  | cons item pending ih =>
      have := h item
      simp only [pendingWork]
      omega

theorem Frame.work_succ_le (rules : Registry Expr) (textLength levels : Nat) (frame : Frame) :
    frame.work rules textLength levels ≤ frame.work rules textLength (levels + 1) := by
  have expr_le := Expr.work_succ_le rules textLength levels
  cases frame with
  | enter expr node => exact expr_le expr
  | stringify | optional | ruleExit | callReturn => exact Nat.le_refl 1
  | repeated _ body =>
      exact Nat.add_le_add_right
        (Nat.mul_le_mul_left _ (Nat.add_le_add_right (expr_le body) 2)) 1
  | sequence pending =>
      exact Nat.add_le_add_right (pendingWork_mono (fun item => expr_le item.1) pending) 1
  | choice pending => exact Nat.add_le_add_right (pendingWork_mono expr_le pending) 1

/-- A stack weighs the frame on top and the rest, except where the frame closes a call. -/
theorem stackWork_cons {frame : Frame} (h : frame ≠ .callReturn) (rules : Registry Expr)
    (textLength levels : Nat) (stack : List Frame) :
    stackWork rules textLength levels (frame :: stack)
      = frame.work rules textLength levels + stackWork rules textLength levels stack := by
  cases frame <;> first | rfl | exact absurd rfl h

theorem stackWork_succ_le (rules : Registry Expr) (textLength levels : Nat) (stack : List Frame) :
    stackWork rules textLength levels stack ≤ stackWork rules textLength (levels + 1) stack := by
  induction stack generalizing levels with
  | nil => exact Nat.le_refl 0
  | cons frame stack ih =>
      by_cases h : frame = .callReturn
      · subst h
        exact Nat.add_le_add_right (ih (levels + 1)) 1
      · rw [stackWork_cons h, stackWork_cons h]
        exact Nat.add_le_add (frame.work_succ_le ..) (ih levels)

theorem stackWork_mono (rules : Registry Expr) (textLength : Nat) {low high : Nat}
    (h : low ≤ high) (stack : List Frame) :
    stackWork rules textLength low stack ≤ stackWork rules textLength high stack := by
  induction h with
  | refl => exact Nat.le_refl _
  | step _ ih => exact Nat.le_trans ih (stackWork_succ_le ..)

namespace Machine

/-- The number of calls that can still be opened. -/
def levels (program : Program) (machine : Machine) : Nat :=
  program.maxDepth - machine.context.depth

/-- The weight of all that is left to do. -/
def work (program : Program) (machine : Machine) : Nat :=
  stackWork program.rules machine.textLength (machine.levels program) machine.stack

/-- The part of a machine that its work depends on is the same in another one. -/
structure SameWork (machine other : Machine) : Prop where
  depth : other.context.depth = machine.context.depth
  textLength : other.textLength = machine.textLength
  stack : other.stack = machine.stack

theorem SameWork.refl (machine : Machine) : SameWork machine machine :=
  ⟨rfl, rfl, rfl⟩

theorem SameWork.trans {first second third : Machine} (h : SameWork first second)
    (h' : SameWork second third) : SameWork first third :=
  ⟨h'.depth.trans h.depth, h'.textLength.trans h.textLength, h'.stack.trans h.stack⟩

theorem SameWork.work_eq {machine other : Machine} (h : SameWork machine other)
    (program : Program) : other.work program = machine.work program := by
  simp [work, levels, h.depth, h.textLength, h.stack]

theorem SameWork.leaf (machine : Machine) (node : NodeId) (found : Option (String × Cursor)) :
    SameWork machine (machine.leaf node found) := by
  cases found <;> exact ⟨rfl, rfl, rfl⟩

theorem SameWork.openParts (node : NodeId) (named : Nat) (parts : List (Option String × Expr))
    (machine : Machine) : SameWork machine (openParts node named parts machine).2 := by
  induction parts generalizing named machine with
  | nil => exact .refl machine
  | cons part parts ih =>
      obtain ⟨field, expr⟩ := part
      cases field with
      | none =>
          have opened : SameWork machine machine.allocate.2 := ⟨rfl, rfl, rfl⟩
          exact opened.trans (ih named _)
      | some label =>
          have opened : SameWork machine (machine.allocate.2.emit
              [.attach node named machine.allocate.1, .setLabel machine.allocate.1 label]) :=
            ⟨rfl, rfl, rfl⟩
          exact opened.trans (ih (named + 1) _)

/-- The expressions that `openParts` pairs with nodes are those of the parts. -/
theorem map_fst_openParts (node : NodeId) (named : Nat) (parts : List (Option String × Expr))
    (machine : Machine) :
    (openParts node named parts machine).1.map (·.1) = parts.map (·.2) := by
  induction parts generalizing named machine with
  | nil => rfl
  | cons part parts ih =>
      obtain ⟨field, expr⟩ := part
      cases field with
      | none => exact congrArg (expr :: ·) (ih named _)
      | some label => exact congrArg (expr :: ·) (ih (named + 1) _)

theorem work_push {frame : Frame} (h : frame ≠ .callReturn) (program : Program)
    (machine : Machine) :
    (machine.push frame).work program =
      frame.work program.rules machine.textLength (machine.levels program)
        + machine.work program :=
  stackWork_cons h ..

theorem nextPart_work (program : Program) (machine : Machine) (pending : List (Expr × NodeId)) :
    (machine.nextPart pending).work program ≤
      pendingWork (fun item => item.1.work program.rules machine.textLength
        (machine.levels program)) pending + machine.work program := by
  cases pending with
  | nil => simp [nextPart, pendingWork]
  | cons item pending =>
      obtain ⟨expr, node⟩ := item
      simp only [nextPart, work_push, ne_eq, reduceCtorEq, not_false_eq_true, Frame.work,
        pendingWork]
      simp only [push, levels]
      omega

theorem nextAlternative_work (program : Program) (machine : Machine) (node : NodeId)
    (start : Cursor) (opened : Nat) (pending : List Expr) :
    (machine.nextAlternative node start opened pending).work program ≤
      pendingWork (Expr.work program.rules machine.textLength (machine.levels program)) pending
        + machine.work program := by
  cases pending with
  | nil => simp [nextAlternative, pendingWork]
  | cons expr pending =>
      have reset : SameWork machine (machine.emit [.reset node]) := ⟨rfl, rfl, rfl⟩
      simp only [nextAlternative, work_push, ne_eq, reduceCtorEq, not_false_eq_true, Frame.work,
        pendingWork, reset.work_eq]
      simp only [push, levels, emit]
      omega

theorem attempt_work (program : Program) (machine : Machine) (atLeastOne : Bool) (body : Expr)
    (node : NodeId) (count budget : Nat) :
    (machine.attempt atLeastOne body node count budget).work program + 1 <
      (budget + 1) * (body.work program.rules machine.textLength (machine.levels program) + 2) + 1
        + machine.work program := by
  have attached : SameWork machine
      (machine.allocate.2.emit [.attach node count machine.allocate.1]) := ⟨rfl, rfl, rfl⟩
  simp only [attempt, work_push, ne_eq, reduceCtorEq, not_false_eq_true, Frame.work,
    attached.work_eq]
  simp only [push, levels, emit, allocate, Nat.succ_mul]
  omega

/-- Starting an expression takes less than its weight. -/
theorem enter_work {program : Program} {expr : Expr} {node : NodeId} {machine after : Machine}
    (h : machine.enter program expr node = .ok after) :
    after.work program <
      expr.work program.rules machine.textLength (machine.levels program)
        + machine.work program := by
  obtain ⟨callWork, weight⟩ :=
    Expr.work_eq_workWith program.rules machine.textLength (machine.levels program)
  cases expr with
  | literal | charClass =>
      cases h
      rw [(SameWork.leaf ..).work_eq, weight, Expr.workWith]
      omega
  | empty | never =>
      cases h
      have ended : ∀ matched, SameWork machine (machine.finish matched) := fun _ => ⟨rfl, rfl, rfl⟩
      rw [(ended _).work_eq, weight, Expr.workWith]
      omega
  | stringify body | optional body | tagged _ body | untagged _ body =>
      cases h
      rw [weight, Expr.workWith, ← weight body]
      simp only [work, levels, push, emit, display, stackWork, Frame.work]
      omega
  | located _ body =>
      cases h
      rw [weight, Expr.workWith, ← weight body]
      simp only [work, levels, push, emit, stackWork, Frame.work]
      omega
  | repeated atLeastOne body =>
      cases h
      have shown : SameWork machine (machine.display node "[]" .list) := ⟨rfl, rfl, rfl⟩
      have bound := attempt_work program (machine.display node "[]" .list) atLeastOne body node 0
        machine.textLength
      rw [shown.work_eq] at bound
      rw [weight, Expr.workWith, ← weight body]
      exact Nat.lt_of_succ_lt bound
  | append before field part =>
      cases h
      have opened := SameWork.openParts node 0 (Expr.append before field part).parts machine
      have started := nextPart_work program
        (openParts node 0 (Expr.append before field part).parts machine).2
        (openParts node 0 (Expr.append before field part).parts machine).1
      have weights := Expr.pendingWork_parts machine.textLength callWork before
      have exprs := congrArg (pendingWork (Expr.workWith machine.textLength callWork))
        (map_fst_openParts node 0 (Expr.append before field part).parts machine)
      rw [opened.work_eq, opened.textLength, levels, opened.depth] at started
      rw [weight, Expr.workWith]
      simp only [levels] at weight
      simp only [weight] at started
      simp only [pendingWork_map] at exprs
      rw [exprs] at started
      simp only [Expr.parts, pendingWork_append, pendingWork] at started ⊢
      omega
  | orElse before alternative =>
      cases h
      have started := nextAlternative_work program machine node machine.context.cursor
        (machine.emitted + 1) (Expr.orElse before alternative).alternatives
      have weights := Expr.pendingWork_alternatives machine.textLength callWork before
      rw [weight, Expr.workWith]
      rw [funext weight] at started
      simp only [Expr.alternatives, pendingWork_append, pendingWork] at started ⊢
      omega
  | call rule =>
      simp only [enter] at h
      split at h
      · cases h
      · rename_i body found
        split at h
        · cases h
        · rename_i context entered
          simp only [Context.enterRule] at entered
          split at entered
          · cases entered
          · rename_i below
            cases entered
            cases h
            have deeper : program.maxDepth - machine.context.depth =
                program.maxDepth - (machine.context.depth + 1) + 1 := by omega
            simp only [work, levels, push, stackWork, Frame.work]
            rw [deeper, Expr.work]
            simp only [Expr.workWith, found]
            omega

/-- Each unit of work lowers the weight of what is left to do. -/
theorem advance_work {program : Program} {frame : Frame} {machine after : Machine}
    (h : machine.advance program frame = .ok after) :
    after.work program < (machine.push frame).work program := by
  have back : ∀ start, SameWork machine (machine.rollback start) := fun _ => ⟨rfl, rfl, rfl⟩
  cases frame with
  | enter expr node =>
      rw [work_push (by simp)]
      exact enter_work h
  | callReturn =>
      cases h
      simp only [work, levels, push, stackWork, Context.exitRule]
      exact Nat.lt_succ_of_le (stackWork_mono _ _ (by omega) _)
  | stringify node start =>
      rw [work_push (by simp), Frame.work]
      simp only [advance] at h
      split at h <;> cases h
      · have shown : SameWork machine (machine.display node
            (Json.quote (start.textTo machine.context.cursor)) .text) := ⟨rfl, rfl, rfl⟩
        rw [shown.work_eq]
        omega
      · omega
  | optional node start opened =>
      rw [work_push (by simp), Frame.work]
      simp only [advance] at h
      split at h <;> cases h
      · omega
      · have missed : SameWork machine ((((machine.rollback start).emit [.reset node]).display node
            "null" .absent).finish true) := ⟨rfl, rfl, rfl⟩
        rw [missed.work_eq]
        omega
  | repeated atLeastOne body node start opened count budget =>
      rw [work_push (by simp), Frame.work]
      simp only [advance] at h
      split at h
      · split at h
        · cases h
        · cases h
        · rename_i budget _
          cases h
          exact Nat.lt_of_succ_lt (attempt_work program machine atLeastOne body node _ budget)
      · cases h
        have ended : SameWork machine (((machine.rollback start).emit [.detach node]).finish
            (0 < count || !atLeastOne)) := ⟨rfl, rfl, rfl⟩
        rw [ended.work_eq]
        omega
  | sequence pending =>
      rw [work_push (by simp), Frame.work]
      cases h
      split
      · have := nextPart_work program machine pending
        omega
      · omega
  | choice pending node start opened =>
      rw [work_push (by simp), Frame.work]
      cases h
      split
      · omega
      · have := nextAlternative_work program (machine.rollback start) node start opened pending
        rw [(back start).work_eq] at this
        simp only [levels, (back start).textLength, (back start).depth] at this ⊢
        omega
  | ruleExit rule =>
      rw [work_push (by simp), Frame.work]
      cases h
      have told : SameWork machine (machine.emit [.ruleExit rule]) := ⟨rfl, rfl, rfl⟩
      rw [told.work_eq]
      omega

end Machine

end TracedGrammar

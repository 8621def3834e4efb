import TracedGrammar.Proofs.Document.Scanner
import TracedGrammar.Proofs.Grammar.Adequacy

/-!
# Expressions that follow scanners

`Program.Follows` says that direct matching of an expression does what a scanner does, at every
cursor: it matches where the scanner has an item, up to the same place and with a value that means
the item, and it fails where the scanner does. In particular it never ends in a fault.

There is one lemma for each operation of expressions, which puts together what its operands follow.
-/

namespace TracedGrammar

open TracedGrammar.Expr (runWith callsBelow)

/-- A reply at a depth of calls tells what a scanner has found: an item that the value means, or
none. -/
inductive Reply.Tells {α : Type} (depth : Nat) (means : Value → α → Prop) :
    Option (α × Cursor) → Reply → Prop where
  | item {value item after} (h : means value item) :
      Tells depth means (some (item, after)) (.ok (.matched value) ⟨after, depth⟩)
  | miss {captured stop} : Tells depth means none (.ok (.failed captured) ⟨stop, depth⟩)

/-- The meaning of rule calls at a depth. -/
def Program.callsAt (program : Program) (depth : Nat) : String → Matcher :=
  callsBelow program.rules program.maxDepth (program.maxDepth - depth)

theorem Program.reply_eq (program : Program) (expr : Expr) (cursor : Cursor) (depth : Nat) :
    program.reply expr ⟨cursor, depth⟩ = runWith (program.callsAt depth) expr ⟨cursor, depth⟩ := by
  rw [Program.reply, Expr.run, Expr.run_below_eq]
  rfl

/-- A call below the limit replies what the body of the rule does. -/
theorem Program.calls_at_of_resolved {program : Program} {rule : String} {body : Expr}
    {cursor : Cursor} {depth : Nat} (resolved : program.rules.resolve? rule = some body)
    (below : depth < program.maxDepth) :
    program.callsAt depth rule ⟨cursor, depth⟩ =
      (runWith (program.callsAt (depth + 1)) body ⟨cursor, depth + 1⟩).exitRule := by
  obtain ⟨left, left_eq, rest_eq⟩ : ∃ left, program.maxDepth - depth = left + 1 ∧
      program.maxDepth - (depth + 1) = left := ⟨_, by omega, rfl⟩
  rw [callsAt, callsAt, left_eq, rest_eq, ← Expr.run_below_eq, callsBelow, Expr.callWith, resolved]
  simp only [Context.enterRule, Nat.not_le.mpr below, if_false]
  cases Expr.runBelow program.rules program.maxDepth left body ⟨cursor, depth + 1⟩ <;> rfl

/-- Matching an expression at a depth of calls does what a scanner does, and yields values that
mean the items. -/
def Program.Follows {α : Type} (program : Program) (depth : Nat) (expr : Expr)
    (means : Value → α → Prop) (scan : Scanner α) : Prop :=
  ∀ cursor, Reply.Tells depth means (scan.run cursor)
    (runWith (program.callsAt depth) expr ⟨cursor, depth⟩)

/-- Matching the further parts of a sequence, whose value so far is given, does what a scanner
does. -/
def Program.FollowsParts {α : Type} (program : Program) (depth : Nat)
    (parts : List (Option String × Expr)) (value : Value) (means : Value → α → Prop)
    (scan : Scanner α) : Prop :=
  ∀ before origin cursor,
    runWith (program.callsAt depth) before origin = .ok (.matched value) ⟨cursor, depth⟩ →
    Reply.Tells depth means (scan.run cursor)
      (runWith (program.callsAt depth)
        (parts.foldl (fun before part => .append before part.1 part.2) before) origin)

/-- A value that is absent where there is no item. -/
def Value.MeansOptional {α : Type} (means : Value → α → Prop) (value : Value) : Option α → Prop
  | none => value = .absent
  | some item => means value item

/-- A list of values that mean the items. -/
def Value.MeansList {α : Type} (means : Value → α → Prop) (value : Value) (items : List α) : Prop :=
  ∃ values, value = .list values ∧ List.Forall₂ means values items

/-- Something is absent only where there is no item. -/
theorem Value.MeansOptional.isAbsent_eq {α : Type} {means : Value → α → Prop} {value : Value}
    {item? : Option α} (h : value.MeansOptional means item?)
    (present : ∀ item, means value item → value.isAbsent = false) :
    value.isAbsent = !item?.isSome := by
  cases item? with
  | none => rw [show value = .absent from h]; rfl
  | some item => rw [present item h]; rfl

namespace Program

variable {α β : Type} {program : Program} {depth : Nat} {body before alternative : Expr}
  {means : Value → α → Prop} {means' : Value → β → Prop} {scan other : Scanner α}

namespace Follows

theorem literal (text : String) :
    program.Follows depth (.literal text) (fun value _ => value = .text text)
      (Scanner.exactly text) := by
  intro cursor
  rw [runWith, Scanner.run_exactly]
  cases cursor.eatLiteral? text with
  | none => exact .miss
  | some after => exact .item rfl

theorem char (set : CharClass) :
    program.Follows depth (.charClass set)
      (fun value char => set.accepts char = true ∧ value = .text (String.singleton char))
      (Scanner.char set.accepts) := by
  intro cursor
  rw [runWith, Scanner.run_char]
  cases eaten : cursor.eatChar? set.accepts with
  | none => exact .miss
  | some found => exact .item ⟨(Cursor.eat_char_eq_some_iff.mp eaten).1, rfl⟩

/-- The text that was consumed replaces the value. -/
theorem stringify {scan : Scanner String} {means : Value → String → Prop}
    (h : program.Follows depth body means scan)
    (spelled : scan.Ensures fun chars text => text = String.ofList chars) :
    program.Follows depth (.stringify body) (fun value text => value = .text text) scan := by
  intro cursor
  have tells := h cursor
  have reads := spelled cursor
  rw [runWith]
  generalize scan.run cursor = result at tells reads ⊢
  generalize runWith (program.callsAt depth) body ⟨cursor, depth⟩ = reply at tells ⊢
  cases tells with
  | @item value text after now =>
      obtain ⟨chars, read, text_eq⟩ := reads text after rfl
      exact .item (by rw [read.textTo_eq, text_eq])
  | miss => exact .miss

theorem optional (h : program.Follows depth body means scan) :
    program.Follows depth (.optional body) (Value.MeansOptional means) (optional scan) := by
  intro cursor
  have tells := h cursor
  rw [runWith, Scanner.run_optional]
  generalize scan.run cursor = result at tells ⊢
  generalize runWith (program.callsAt depth) body ⟨cursor, depth⟩ = reply at tells ⊢
  cases tells with
  | item now => exact .item now
  | miss => exact .item rfl

/-- Items that are matched after others are those that are scanned. -/
theorem items (h : program.Follows depth body means scan) (eats : scan.Eats) (atLeastOne : Bool)
    (earlier : List Value) (more : (atLeastOne && earlier.isEmpty) = false) (budget : List Char)
    (cursor : Cursor) (room : cursor.rest.length ≤ budget.length) :
    Reply.Tells depth
      (fun value items => ∃ values, value = .list (earlier.reverse ++ values) ∧
        List.Forall₂ means values items)
      ((Scanner.many scan).run cursor)
      (Matcher.repeatItems (runWith (program.callsAt depth) body) atLeastOne budget earlier
        ⟨cursor, depth⟩) := by
  induction left : cursor.rest.length using Nat.strong_induction_on
    generalizing earlier budget cursor with
  | _ _ ih =>
      have tells := h cursor
      rw [Scanner.run_many eats, Matcher.repeatItems]
      generalize replied : runWith (program.callsAt depth) body ⟨cursor, depth⟩ = reply at tells ⊢
      cases scanned : scan.run cursor with
      | none =>
          rw [scanned] at tells
          cases tells with
          | miss =>
              simp only [more]
              exact .item ⟨[], by simp, .nil⟩
      | some found =>
          rw [scanned] at tells
          cases tells with
          | @item value first after now =>
              have fewer := eats.length_lt scanned
              obtain ⟨char, budget, rfl⟩ := List.exists_cons_of_length_pos
                (show 0 < budget.length by omega)
              rw [List.length_cons] at room
              have others := ih after.rest.length (by omega) (value :: earlier) (by simp) budget
                after (by omega) rfl
              simp only [Context.checkProgress, Context.offset, eats.offset_ne scanned, if_false]
              generalize (Scanner.many scan).run after = result at others ⊢
              generalize Matcher.repeatItems _ _ _ _ _ = reply at others ⊢
              cases others with
              | item all =>
                  obtain ⟨values, rfl, mean⟩ := all
                  exact .item ⟨value :: values, by simp, .cons now mean⟩
              | miss => exact .miss

theorem zeroOrMore (h : program.Follows depth body means scan) (eats : scan.Eats) :
    program.Follows depth (.zeroOrMore body) (Value.MeansList means) (Scanner.many scan) :=
  fun cursor => h.items eats false [] rfl _ cursor (Nat.le_refl _)

theorem oneOrMore (h : program.Follows depth body means scan) (eats : scan.Eats) :
    program.Follows depth (.oneOrMore body) (Value.MeansList means) (Scanner.many1 scan) := by
  intro cursor
  have tells := h cursor
  rw [Expr.oneOrMore, runWith, Matcher.repeatItems, Scanner.many1, StateT.run_bind]
  generalize replied : runWith (program.callsAt depth) body ⟨cursor, depth⟩ = reply at tells ⊢
  cases scanned : scan.run cursor with
  | none =>
      rw [scanned] at tells
      cases tells with
      | miss => exact .miss
  | some found =>
      rw [scanned] at tells
      cases tells with
      | @item value first after now =>
          have fewer := eats.length_lt scanned
          obtain ⟨char, budget, budget_eq⟩ := List.exists_cons_of_length_pos
            (show 0 < cursor.rest.length by omega)
          have room : after.rest.length ≤ budget.length := by
            rw [budget_eq, List.length_cons] at fewer
            omega
          have others := h.items eats true [value] rfl budget after room
          rw [budget_eq]
          simp only [Context.checkProgress, Context.offset, eats.offset_ne scanned, if_false,
            Option.bind_eq_bind, Option.bind_some, StateT.run_bind]
          generalize (Scanner.many scan).run after = result at others ⊢
          generalize Matcher.repeatItems _ _ _ _ _ = reply at others ⊢
          cases others with
          | item all =>
              obtain ⟨values, rfl, mean⟩ := all
              exact .item ⟨value :: values, rfl, .cons now mean⟩
          | miss => exact .miss

theorem never : program.Follows depth .never means failure :=
  fun _ => .miss

theorem orElse (h : program.Follows depth before means scan)
    (h' : program.Follows depth alternative means other) :
    program.Follows depth (.orElse before alternative) means (scan <|> other) := by
  intro cursor
  have tells := h cursor
  have tells' := h' cursor
  rw [Scanner.run_or_else]
  generalize replied : runWith (program.callsAt depth) before ⟨cursor, depth⟩ = reply at tells
  generalize scan.run cursor = result at tells ⊢
  cases tells with
  | item now =>
      rw [runWith, replied]
      exact .item now
  | miss =>
      rw [Expr.run_with_orElse _ _ _ _ replied]
      show Reply.Tells _ _ (none <|> other.run cursor)
        (Reply.putBack cursor (runWith (program.callsAt depth) alternative ⟨cursor, depth⟩))
      generalize runWith (program.callsAt depth) alternative ⟨cursor, depth⟩ = reply at tells' ⊢
      generalize other.run cursor = result at tells' ⊢
      cases tells' with
      | item now => exact .item now
      | miss => exact .miss

/-- The first alternative of a choice. -/
theorem only (h : program.Follows depth alternative means scan) :
    program.Follows depth (.orElse .never alternative) means scan := by
  have tells := (never : program.Follows depth .never means failure).orElse h
  rwa [failure_orElse] at tells

theorem untagged {rule : String} (h : program.Follows depth body means scan) :
    program.Follows depth (.untagged rule body) means scan :=
  h

/-- A sequence is matched part by part. -/
theorem tagged {rule : String} {parts : List (Option String × Expr)}
    {scan : Scanner (Span → α)}
    (h : program.FollowsParts depth parts (.record .empty)
      (fun value item => ∀ span, means (.record (value.asRuleRecord rule span)) (item span)) scan) :
    program.Follows depth (.tagged rule (.sequence parts)) means (Scanner.spanned scan) := by
  intro cursor
  have tells := h .empty ⟨cursor, depth⟩ cursor rfl
  rw [Expr.run_with_tagged, Expr.sequence, Scanner.run_spanned]
  generalize scan.run cursor = result at tells ⊢
  generalize runWith (program.callsAt depth) _ _ = reply at tells ⊢
  cases tells with
  | item now => exact .item (now _)
  | miss => exact .miss

/-- The range that a sequence is matched in may not matter. -/
theorem tagged_anywhere {rule : String} {parts : List (Option String × Expr)}
    (h : program.FollowsParts depth parts (.record .empty)
      (fun value item => ∀ span, means (.record (value.asRuleRecord rule span)) item) scan) :
    program.Follows depth (.tagged rule (.sequence parts)) means scan := by
  intro cursor
  have tells := h .empty ⟨cursor, depth⟩ cursor rfl
  rw [Expr.run_with_tagged, Expr.sequence]
  generalize scan.run cursor = result at tells ⊢
  generalize runWith (program.callsAt depth) _ _ = reply at tells ⊢
  cases tells with
  | item now => exact .item (now _)
  | miss => exact .miss

theorem call {rule : String} (resolved : program.rules.resolve? rule = some body)
    (below : depth < program.maxDepth) (h : program.Follows (depth + 1) body means scan) :
    program.Follows depth (.call rule) means scan := by
  intro cursor
  have tells := h cursor
  rw [runWith, calls_at_of_resolved resolved below]
  generalize scan.run cursor = result at tells ⊢
  generalize runWith _ body _ = reply at tells ⊢
  cases tells with
  | item now => exact .item now
  | miss => exact .miss

end Follows

namespace FollowsParts

variable {value : Value} {field : Option String} {expr : Expr} {next : α → Scanner β}
  {parts : List (Option String × Expr)}

theorem nil {item : α} (h : means value item) :
    program.FollowsParts depth [] value means (pure item) := by
  intro before origin cursor matched
  rw [List.foldl_nil, matched]
  exact .item h

theorem cons (h : program.Follows depth expr means scan)
    (onward : ∀ found item, means found item →
      program.FollowsParts depth parts (value.extend field found) means' (next item)) :
    program.FollowsParts depth ((field, expr) :: parts) value means' (scan >>= next) := by
  intro before origin cursor matched
  have tells := h cursor
  have joined := Expr.run_with_append _ origin before expr field matched
  rw [List.foldl_cons, StateT.run_bind]
  generalize scan.run cursor = result at tells ⊢
  generalize runWith (program.callsAt depth) expr ⟨cursor, depth⟩ = reply at tells joined
  cases tells with
  | item now => exact onward _ _ now _ origin _ joined
  | miss =>
      rw [Expr.run_more_parts joined rfl]
      exact .miss

end FollowsParts

end Program

end TracedGrammar

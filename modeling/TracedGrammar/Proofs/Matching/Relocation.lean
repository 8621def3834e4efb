import TracedGrammar.Proofs.Trace.Matching

/-!
# Matching only looks at what is left

A text can be matched where it stands behind another one. Nothing that a match does depends on the
text in front: offsets are only compared with offsets of the same match, and what is sliced, eaten
and put back lies behind the place where the match began. So the reply is the one that the text has
on its own, with all offsets in it moved by the bytes of the text in front (`Expr.run_shift`).

Moving is said of everything that has offsets in it. There is one lemma for each operation on a
cursor and one for each construct of expressions.

The theorem to read first is `run_behind_text`.
-/

namespace TracedGrammar

/-! ### Offsets that are moved -/

/-- The span some bytes later. -/
def Span.shift (bytes : Nat) (span : Span) : Span :=
  ⟨span.start + bytes, span.stop + bytes⟩

/-- The diagnostic with its place some bytes later. -/
def Diagnostic.shift (bytes : Nat) (diagnostic : Diagnostic) : Diagnostic :=
  { diagnostic with span := diagnostic.span.map (·.shift bytes) }

namespace Value

mutual

/-- The value with the spans of its records some bytes later. -/
def shift (bytes : Nat) : Value → Value
  | .absent => .absent
  | .text content => .text content
  | .list items => .list (shiftItems bytes items)
  | .record ⟨tag, span, fields⟩ =>
      .record ⟨tag, span.map (·.shift bytes), shiftFields bytes fields⟩

/-- The items of a list with all spans some bytes later. -/
def shiftItems (bytes : Nat) : List Value → List Value
  | [] => []
  | item :: items => item.shift bytes :: shiftItems bytes items

/-- The fields of a record with all spans some bytes later. -/
def shiftFields (bytes : Nat) : List (String × Value) → List (String × Value)
  | [] => []
  | (name, value) :: fields => (name, value.shift bytes) :: shiftFields bytes fields

end

end Value

/-- The record with its span and those of its fields some bytes later. -/
def Record.shift (bytes : Nat) (record : Record Value) : Record Value :=
  { record with
    span := record.span.map (·.shift bytes)
    fields := Value.shiftFields bytes record.fields }

/-- The cursor some bytes later, with the same text behind it. -/
def Cursor.shift (bytes : Nat) (cursor : Cursor) : Cursor :=
  { cursor with offset := cursor.offset + bytes }

/-- The context with its cursor some bytes later. -/
def Context.shift (bytes : Nat) (context : Context) : Context :=
  { context with cursor := context.cursor.shift bytes }

/-- The fault some bytes later. -/
def Fault.shift (bytes : Nat) : Fault → Fault
  | unknownStart rule => unknownStart rule
  | unresolved rule => unresolved rule
  | tooDeep rule limit offset => tooDeep rule limit (offset + bytes)
  | noProgress offset => noProgress (offset + bytes)

/-- The outcome with all spans in it some bytes later. -/
def Outcome.shift (bytes : Nat) : Outcome → Outcome
  | matched value => matched (value.shift bytes)
  | failed captured => failed (captured.map (·.shift bytes))

/-- The reply with everything in it some bytes later. -/
def Reply.shift (bytes : Nat) : Reply → Reply
  | .ok outcome after => .ok (outcome.shift bytes) (after.shift bytes)
  | .error fault after => .error (fault.shift bytes) (after.shift bytes)

variable (bytes : Nat)

/-- The report of a fault some bytes later has its place there, and says the same. -/
theorem Fault.diagnostic_shift (fault : Fault) :
    (fault.shift bytes).diagnostic = fault.diagnostic.shift bytes := by
  cases fault <;> rfl

theorem Value.shift_items_eq_map (items : List Value) :
    Value.shiftItems bytes items = items.map (Value.shift bytes) := by
  induction items with
  | nil => rfl
  | cons item items ih => rw [Value.shiftItems, ih, List.map_cons]

theorem Value.shift_fields_insertField (name : String) (value : Value)
    (fields : List (String × Value)) :
    Value.shiftFields bytes (Record.insertField name value fields) =
      Record.insertField name (value.shift bytes) (Value.shiftFields bytes fields) := by
  induction fields with
  | nil => rfl
  | cons field fields ih =>
      obtain ⟨key, old⟩ := field
      by_cases same : key = name
      · simp [Record.insertField, Value.shiftFields, same]
      · simp [Record.insertField, Value.shiftFields, same, ih]

theorem Record.shift_insert (record : Record Value) (name : String) (value : Value) :
    (record.insert name value).shift bytes =
      (record.shift bytes).insert name (value.shift bytes) := by
  simp only [Record.shift, Record.insert, Value.shift_fields_insertField]

theorem Value.shift_record (content : Record Value) :
    (Value.record content).shift bytes = .record (content.shift bytes) :=
  rfl

theorem Value.toRecord_shift (value : Value) :
    (value.shift bytes).toRecord = value.toRecord.shift bytes := by
  cases value <;> rfl

theorem Value.as_rule_record_shift (value : Value) (rule : String) (span : Span) :
    (value.shift bytes).asRuleRecord rule (span.shift bytes) =
      (value.asRuleRecord rule span).shift bytes := by
  cases value <;> rfl

/-! ### Cursors and contexts -/

@[simp] theorem Context.cursor_shift (context : Context) :
    (context.shift bytes).cursor = context.cursor.shift bytes :=
  rfl

@[simp] theorem Context.offset_shift (context : Context) :
    (context.shift bytes).offset = context.offset + bytes :=
  rfl

theorem Cursor.eat_literal_shift (cursor : Cursor) (literal : String) :
    (cursor.shift bytes).eatLiteral? literal =
      (cursor.eatLiteral? literal).map (·.shift bytes) := by
  rw [eatLiteral?, eatLiteral?, Option.map_map]
  refine congrArg (Option.map · _) (funext fun rest => ?_)
  simp only [shift, Function.comp_apply, Nat.add_right_comm]

theorem Cursor.eat_char_shift (cursor : Cursor) (accepts : Char → Bool) :
    (cursor.shift bytes).eatChar? accepts =
      (cursor.eatChar? accepts).map fun (char, after) => (char, after.shift bytes) := by
  obtain ⟨offset, rest⟩ := cursor
  cases rest with
  | nil => rfl
  | cons char rest =>
      cases accepted : accepts char <;>
        simp [eatChar?, shift, accepted, Nat.add_right_comm]

/-- The text between two cursors does not depend on where they are. -/
theorem Cursor.text_to_shift (cursor later : Cursor) :
    (cursor.shift bytes).textTo (later.shift bytes) = cursor.textTo later := by
  simp only [textTo, shift, Nat.add_sub_add_right]

/-- Behind a text stands the start of the text that follows it. -/
theorem Cursor.seek_append (front text : String) :
    Cursor.seek (front ++ text) front.utf8ByteSize =
      (Cursor.start text).shift front.utf8ByteSize := by
  rw [seek, String.toList_append, ← String.utf8Len_toList, dropBytes_append, shift, start,
    Nat.zero_add]

theorem Context.check_progress_shift (context : Context) (begun : Nat) :
    (context.shift bytes).checkProgress (begun + bytes) =
      (context.checkProgress begun).mapError (Fault.shift bytes) := by
  by_cases still : context.offset = begun
  · have still' : (context.shift bytes).offset = begun + bytes := congrArg (· + bytes) still
    simp only [checkProgress, still, still', if_true]
    rfl
  · have moved : (context.shift bytes).offset ≠ begun + bytes :=
      fun same => still (Nat.add_right_cancel same)
    simp only [checkProgress, still, moved, if_false]
    rfl

/-! ### Replies -/

theorem Reply.shift_join (reply : Reply) (value : Value) (field : Option String) :
    (reply.shift bytes).join (value.shift bytes) field = (reply.join value field).shift bytes := by
  rcases reply with ⟨item | captured, after⟩ | ⟨fault, after⟩
  · cases field with
    | none => rfl
    | some name =>
        simp only [shift, join, Outcome.shift, Value.extend, Value.toRecord_shift,
          Value.shift_record, Record.shift_insert]
  · simp only [shift, join, Outcome.shift, Value.toRecord_shift, Option.map_some]
  · rfl

theorem Reply.shift_tag (reply : Reply) (rule : String) (start : Nat) :
    (reply.shift bytes).tag rule (start + bytes) = (reply.tag rule start).shift bytes := by
  rcases reply with ⟨value | captured, after⟩ | ⟨fault, after⟩
  · have same := value.as_rule_record_shift bytes rule ⟨start, after.offset⟩
    simp only [shift, tag, Outcome.shift, Value.shift_record, ← same]
    rfl
  · cases captured <;> rfl
  · rfl

theorem Reply.shift_putBack (reply : Reply) (start : Cursor) :
    (reply.shift bytes).putBack (start.shift bytes) = (reply.putBack start).shift bytes := by
  rcases reply with ⟨value | captured, after⟩ | ⟨fault, after⟩ <;> rfl

/-! ### Matching -/

/-- A way of matching does some bytes later what it does at a context. -/
def Matcher.Relocates (bytes : Nat) (matcher : Matcher) : Prop :=
  ∀ context, matcher (context.shift bytes) = (matcher context).shift bytes

open TracedGrammar.Expr (runWith callWith runBelow)

variable {bytes}

/-- Items are repeated some bytes later as they are at a context, from items that are moved too. -/
theorem Matcher.Relocates.repeat_items {item : Matcher} (h : item.Relocates bytes)
    (atLeastOne : Bool) (budget : List Char) (items : List Value) (context : Context) :
    repeatItems item atLeastOne budget (items.map (Value.shift bytes)) (context.shift bytes) =
      (repeatItems item atLeastOne budget items context).shift bytes := by
  fun_induction repeatItems item atLeastOne budget items context with
  | case1 budget items context fault after replied =>
      rw [repeatItems, h, replied]
      rfl
  | case2 budget items context captured after replied none_yet =>
      rw [repeatItems, h, replied]
      simp only [Reply.shift, Outcome.shift, List.isEmpty_map, none_yet]
      rfl
  | case3 budget items context captured after replied enough =>
      rw [repeatItems, h, replied]
      simp only [Reply.shift, Outcome.shift, List.isEmpty_map, enough, Value.shift,
        Value.shift_items_eq_map, List.map_reverse]
      rfl
  | case4 budget items context value after replied fault stuck =>
      have progress := after.check_progress_shift bytes context.offset
      rw [stuck] at progress
      rw [repeatItems, h, replied]
      simp only [Reply.shift, Outcome.shift, Context.offset_shift, progress]
      rfl
  | case5 items context value after replied moved =>
      have progress := after.check_progress_shift bytes context.offset
      rw [moved] at progress
      rw [repeatItems, h, replied]
      simp only [Reply.shift, Outcome.shift, Context.offset_shift, progress]
      rfl
  | case6 items context value after replied char budget moved ih =>
      have progress := after.check_progress_shift bytes context.offset
      rw [moved] at progress
      rw [repeatItems, h, replied]
      simp only [Reply.shift, Outcome.shift, Context.offset_shift, progress]
      exact ih

/-- An expression is matched some bytes later as it is at a context, if calls are. -/
theorem Expr.run_with_shift {call : String → Matcher} (h : ∀ rule, (call rule).Relocates bytes)
    (expr : Expr) : (runWith call expr).Relocates bytes := by
  intro context
  induction expr generalizing context with
  | literal text =>
      rw [runWith, runWith, Context.cursor_shift, Cursor.eat_literal_shift]
      cases context.cursor.eatLiteral? text <;> rfl
  | charClass set =>
      rw [runWith, runWith, Context.cursor_shift, Cursor.eat_char_shift]
      cases context.cursor.eatChar? set.accepts <;> rfl
  | stringify body ih =>
      rw [runWith, runWith, ih]
      rcases runWith call body context with ⟨value | captured, after⟩ | ⟨fault, after⟩
      · have same := context.cursor.text_to_shift bytes after.cursor
        simp only [Reply.shift, Outcome.shift, Context.cursor_shift, same, Value.shift]
      · rfl
      · rfl
  | optional body ih =>
      rw [runWith, runWith, ih]
      rcases runWith call body context with ⟨value | captured, after⟩ | ⟨fault, after⟩ <;> rfl
  | repeated atLeastOne body ih =>
      rw [runWith, runWith]
      exact Matcher.Relocates.repeat_items ih atLeastOne _ [] context
  | call rule => exact h rule context
  | empty => rfl
  | append before field part ih ih' =>
      have front := ih context
      rcases replied : runWith call before context with
        ⟨value | captured, middle⟩ | ⟨fault, middle⟩ <;> rw [replied] at front
      · rw [run_with_append _ _ _ _ _ replied, run_with_append _ _ _ _ _ front, ih',
          Reply.shift_join]
      · simp only [runWith, replied, front, Reply.shift, Outcome.shift]
      · simp only [runWith, replied, front, Reply.shift]
  | never => rfl
  | orElse before alternative ih ih' =>
      have front := ih context
      rcases replied : runWith call before context with
        ⟨value | captured, middle⟩ | ⟨fault, middle⟩ <;> rw [replied] at front
      · simp only [runWith, replied, front, Reply.shift, Outcome.shift]
      · have tried := ih' (middle.restore context.cursor)
        rw [run_with_orElse _ _ _ _ replied, run_with_orElse _ _ _ _ front,
          ← Reply.shift_putBack, ← tried]
        rfl
      · simp only [runWith, replied, front, Reply.shift]
  | tagged rule body ih =>
      rw [run_with_tagged, run_with_tagged, ih, ← Reply.shift_tag]
      rfl
  | untagged rule body ih => exact ih context
  | located span body ih => exact ih context

/-- A call is matched some bytes later as it is at a context, if the bodies of rules are. -/
theorem Expr.call_with_shift {body : Expr → Matcher} (h : ∀ expr, (body expr).Relocates bytes)
    (rules : Registry Expr) (limit : Nat) (rule : String) :
    (callWith rules limit body rule).Relocates bytes := by
  intro context
  rw [callWith, callWith]
  cases rules.resolve? rule with
  | none => rfl
  | some expr =>
      by_cases full : limit ≤ context.depth
      · have full' : limit ≤ (context.shift bytes).depth := full
        simp only [Context.enterRule, full, full', if_true]
        rfl
      · have full' : ¬ limit ≤ (context.shift bytes).depth := full
        simp only [Context.enterRule, full, full', if_false]
        have inner := h expr { context with depth := context.depth + 1 }
        have entered : { context.shift bytes with depth := (context.shift bytes).depth + 1 } =
          Context.shift bytes { context with depth := context.depth + 1 } := rfl
        rw [entered, inner]
        cases body expr { context with depth := context.depth + 1 } <;> rfl

theorem Expr.run_below_shift (rules : Registry Expr) (limit levels : Nat) (expr : Expr) :
    (runBelow rules limit levels expr).Relocates bytes := by
  induction levels generalizing expr with
  | zero => exact run_with_shift (call_with_shift (fun _ _ => rfl) rules limit) expr
  | succ levels ih => exact run_with_shift (call_with_shift ih rules limit) expr

/-- Matching some bytes later is matching, with everything some bytes later. -/
theorem Expr.run_shift (rules : Registry Expr) (limit : Nat) (expr : Expr) :
    (expr.run rules limit).Relocates bytes :=
  fun context => run_below_shift rules limit (limit - context.depth) expr context

/-- A text is matched behind another one as it is on its own. Whatever the expression and the limit
on nested calls, the reply at the end of the text in front is the reply at the start of the text
alone, with the cursor, the spans of all records and the place of a fault moved by the bytes in
front. The report of the fault says the same about that place. -/
theorem run_behind_text (rules : Registry Expr) (limit : Nat) (expr : Expr) (front text : String)
    (depth : Nat) :
    expr.run rules limit ⟨.seek (front ++ text) front.utf8ByteSize, depth⟩ =
        (expr.run rules limit ⟨.start text, depth⟩).shift front.utf8ByteSize ∧
      ∀ fault : Fault, (fault.shift front.utf8ByteSize).diagnostic =
        fault.diagnostic.shift front.utf8ByteSize := by
  refine ⟨?_, fun fault => fault.diagnostic_shift _⟩
  rw [Cursor.seek_append]
  exact expr.run_shift rules limit ⟨.start text, depth⟩

end TracedGrammar

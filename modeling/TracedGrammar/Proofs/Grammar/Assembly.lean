import TracedGrammar.Proofs.Grammar.Compiled
import TracedGrammar.Proofs.Grammar.Meaning

/-!
# How values are put together

The value of a match is put together as the cursor moves on: from texts that were read, absent
parts, lists that get one item more, and records that get one field more until a rule closes them.
What was tried and given up leaves nothing in it.

Two relations say how a value lies in the text, `whole` for values and `filled` for records that
still wait for some parts. If each way to put a value together keeps them (`Grammar.Assembles`),
then the value of every match is related to the cursors of the match (`Means.assembled`).
-/

namespace TracedGrammar

namespace Grammar

/-- A value, or a record that still waits for some parts, between the cursor where it was begun and
the one that was reached: each way to put a value together keeps the relations. -/
structure Assembles (grammar : Grammar) (whole : Cursor → Value → Cursor → Prop)
    (filled : List Part → Cursor → Record Value → Cursor → Prop) : Prop where
  text : ∀ {cursor after chars}, cursor.Reads chars after →
    whole cursor (.text (String.ofList chars)) after
  absent : ∀ {cursor}, whole cursor .absent cursor
  no_items : ∀ {cursor}, whole cursor (.list []) cursor
  next_item : ∀ {begun items cursor value after}, whole begun (.list items) cursor →
    whole cursor value after → whole begun (.list (items ++ [value])) after
  no_fields : ∀ {name ident parts span cursor},
    grammar.rule? name = some (.sequence ident parts span) → filled parts cursor .empty cursor
  next_part : ∀ {part parts begun record cursor value after},
    filled (part :: parts) begun record cursor → whole cursor value after →
      filled parts begun (part.keep value record) after
  record : ∀ {name begun record after}, filled [] begun record after →
    whole begun (.record
      { record with tag := some name, span := some ⟨begun.offset, after.offset⟩ }) after

/-- What the relations say about the value of a goal. Items go on from those before, and parts from
the fields of those before. -/
def Goal.Assembled (whole : Cursor → Value → Cursor → Prop)
    (filled : List Part → Cursor → Record Value → Cursor → Prop) (cursor : Cursor) (value : Value)
    (after : Cursor) : Goal → Prop
  | .rule _ | .atom _ | .suffixed .. | .part _ | .cases .. => whole cursor value after
  | .items _ _ earlier => ∀ begun, whole begun (.list earlier) cursor → whole begun value after
  | .parts left record => ∀ begun, filled left begun record cursor →
      ∃ kept, value = .record kept ∧ filled [] begun kept after

/-- The value of a match lies in the text as each way to put values together tells. -/
theorem Means.assembled {grammar : Grammar} {whole : Cursor → Value → Cursor → Prop}
    {filled : List Part → Cursor → Record Value → Cursor → Prop}
    (assembles : grammar.Assembles whole filled) {limit : Nat} {attempt : Attempt}
    {outcome : Outcome} {after : Cursor} (h : grammar.Means limit attempt outcome after)
    {value : Value} (matched : outcome = .matched value) :
    attempt.goal.Assembled whole filled attempt.cursor value after := by
  induction h generalizing value with
  | sequence_match found below _ ih =>
      cases matched
      obtain ⟨kept, same, done⟩ := ih rfl _ (assembles.no_fields found)
      cases same
      exact assembles.record done
  | union _ _ _ ih | reference _ ih | once _ ih | optional_match _ ih | part_value _ _ ih =>
      exact ih matched
  | literal_match read | class_match _ read | part_text _ _ read =>
      cases matched
      exact assembles.text read
  | optional_miss =>
      cases matched
      exact assembles.absent
  | zero_or_more _ ih | one_or_more _ ih => exact ih matched _ assembles.no_items
  | items_end =>
      cases matched
      exact fun begun items => items
  | items_next _ _ _ ih ih' =>
      exact fun begun items => ih' matched begun (assembles.next_item items (ih rfl))
  | parts_end =>
      cases matched
      exact fun begun done => ⟨_, rfl, done⟩
  | parts_next _ _ ih ih' =>
      exact fun begun some_filled => ih' matched begun (assembles.next_part some_filled (ih rfl))
  | cases_match _ ih =>
      cases matched
      exact ih rfl
  | cases_next _ _ _ ih => exact ih matched
  | sequence_miss | literal_miss | class_miss | items_none | part_miss | parts_stop | cases_end =>
      cases matched

end Grammar

/-- A line is marks with an exclamation mark, or marks, then letters of which only the text is kept,
and possibly one more mark. -/
def lineGrammar : Grammar where
  rules :=
    [.union ⟨"line", ⟨0, 4⟩⟩ [⟨"cry", ⟨7, 10⟩⟩, ⟨"plain", ⟨11, 16⟩⟩] ⟨0, 18⟩,
      .sequence ⟨"cry", ⟨19, 22⟩⟩
        [⟨some ⟨"marks", ⟨0, 5⟩⟩, false, .reference ⟨"mark", ⟨0, 4⟩⟩, some .zeroOrMore, ⟨0, 5⟩⟩,
          ⟨some ⟨"sign", ⟨0, 4⟩⟩, false, markLiteral '!', none, ⟨0, 3⟩⟩] ⟨19, 50⟩,
      .sequence ⟨"plain", ⟨51, 56⟩⟩
        [⟨some ⟨"marks", ⟨0, 5⟩⟩, false, .reference ⟨"mark", ⟨0, 4⟩⟩, some .oneOrMore, ⟨0, 5⟩⟩,
          ⟨some ⟨"rest", ⟨0, 4⟩⟩, true, .reference ⟨"word", ⟨0, 4⟩⟩, none, ⟨0, 5⟩⟩,
          ⟨some ⟨"last", ⟨0, 4⟩⟩, false, .reference ⟨"mark", ⟨0, 4⟩⟩, some .optional, ⟨0, 5⟩⟩]
        ⟨51, 90⟩,
      .sequence ⟨"mark", ⟨91, 95⟩⟩
        [⟨some ⟨"letter", ⟨0, 6⟩⟩, false, letterClass, none, ⟨0, 5⟩⟩,
          ⟨some ⟨"dot", ⟨0, 3⟩⟩, false, markLiteral '.', none, ⟨0, 3⟩⟩] ⟨91, 120⟩,
      .sequence ⟨"word", ⟨121, 125⟩⟩
        [⟨some ⟨"letters", ⟨0, 7⟩⟩, false, letterClass, some .zeroOrMore, ⟨0, 5⟩⟩] ⟨121, 140⟩]
  span := ⟨0, 140⟩

/-- A letter with a dot behind it. -/
def markValue (letter : String) (start : Nat) : Value :=
  .record { tag := some "mark", span := some ⟨start, start + 2⟩, fields :=
    [("letter", .text letter), ("dot", .text ".")] }

/-- What the example yields for a text that goes on behind the line. -/
def lineValue : Value :=
  .record { tag := some "plain", span := some ⟨0, 6⟩, fields :=
    [("marks", .list [markValue "a" 0, markValue "b" 2]), ("rest", .text "cc"),
      ("last", .absent)] }

/-- The third mark has no dot, so its letter is given back, and so are all marks by the first case
of a line. -/
theorem run_line {program : Program} (compiled : lineGrammar.compile 9 = .ok program) :
    program.run "line" "a.b.cc?" = .ok (.matched lineValue, 6) := by
  obtain ⟨same, same_compiled, ran⟩ : ∃ same, lineGrammar.compile 9 = .ok same ∧
      same.run "line" "a.b.cc?" = .ok (.matched lineValue, 6) := by
    refine ⟨_, rfl, ?_⟩
    cbv
  cases same_compiled.symm.trans compiled
  exact ran

end TracedGrammar

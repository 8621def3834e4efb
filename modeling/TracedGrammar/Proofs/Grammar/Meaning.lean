import Mathlib.Logic.Relation
import TracedGrammar.Grammar
import TracedGrammar.Proofs.Text.Cursor
import TracedGrammar.Run

/-!
# The meaning of a grammar

What the rules of a grammar match, told of its syntax tree. `Grammar.Means` relates an attempt at a
cursor to how it comes out and where the cursor is then. A mismatch leaves the cursor where it
happened; suffixes and unions put it back. An attempt at which a fault happens (`Grammar.Breaks`)
has no outcome, nor has any attempt that demands it (`Grammar.Demands`).

Every attempt either has an outcome or demands one that breaks (`Grammar.settles`).
-/

namespace TracedGrammar

/-- The characters that a class member stands for. -/
def ClassMember.Contains (char : Char) : ClassMember → Prop
  | range low high _ => low.value ≤ char ∧ char ≤ high.value
  | single member => member.value = char

/-- A class accepts the characters of its members, or all others. -/
def ClassMember.Accept (inverted : Bool) (members : List ClassMember) (char : Char) : Prop :=
  (∃ member ∈ members, member.Contains char) ↔ inverted = false

/-- A named part adds its value to the fields of the parts before. -/
def Part.keep (part : Part) (value : Value) (record : Record Value) : Record Value :=
  match part.field with
  | some field => record.insert field.name value
  | none => record

namespace Grammar

/-- What there is to match. -/
inductive Goal where
  /-- The rule of a name. -/
  | rule (name : String)
  /-- An atom, once. -/
  | atom (atom : Atom)
  /-- An atom as often as its suffix says. -/
  | suffixed (atom : Atom) (suffix : Option Suffix)
  /-- An atom as often as possible, after the given items. -/
  | items (atom : Atom) (atLeastOne : Bool) (earlier : List Value)
  /-- A part of a sequence. -/
  | part (part : Part)
  /-- The parts of a sequence that are left, with the fields of those before. -/
  | parts (parts : List Part) (record : Record Value)
  /-- The cases of a union that are left, with what the last of those before had captured. -/
  | cases (targets : List Ident) (captured : Option (Record Value))

/-- A goal at a cursor, inside a number of rule calls. -/
structure Attempt where
  goal : Goal
  depth : Nat
  cursor : Cursor

/-- How an attempt comes out, under a limit on nested calls. -/
inductive Means (grammar : Grammar) (limit : Nat) : Attempt → Outcome → Cursor → Prop where
  -- rules: a sequence makes a record with its name and span, a union passes on what its case yields
  | sequence_match {name ident parts span depth cursor record after}
      (found : grammar.rule? name = some (.sequence ident parts span)) (below : depth < limit)
      (inner : Means grammar limit ⟨.parts parts .empty, depth + 1, cursor⟩
        (.matched (.record record)) after) :
      Means grammar limit ⟨.rule name, depth, cursor⟩
        (.matched (.record
          { record with tag := some name, span := some ⟨cursor.offset, after.offset⟩ })) after
  | sequence_miss {name ident parts span depth cursor record stop}
      (found : grammar.rule? name = some (.sequence ident parts span)) (below : depth < limit)
      (inner : Means grammar limit ⟨.parts parts .empty, depth + 1, cursor⟩
        (.failed (some record)) stop) :
      Means grammar limit ⟨.rule name, depth, cursor⟩
        (.failed (some { record with tag := some name })) stop
  | union {name ident targets span depth cursor outcome after}
      (found : grammar.rule? name = some (.union ident targets span)) (below : depth < limit)
      (inner : Means grammar limit ⟨.cases targets none, depth + 1, cursor⟩ outcome after) :
      Means grammar limit ⟨.rule name, depth, cursor⟩ outcome after
  -- atoms
  | reference {target depth cursor outcome after}
      (inner : Means grammar limit ⟨.rule target.name, depth, cursor⟩ outcome after) :
      Means grammar limit ⟨.atom (.reference target), depth, cursor⟩ outcome after
  | literal_match {quote chars span depth cursor after}
      (read : cursor.Reads (chars.map SourceChar.value) after) :
      Means grammar limit ⟨.atom (.literal quote chars span), depth, cursor⟩
        (.matched (.text (literalValue chars))) after
  | literal_miss {quote chars span depth cursor}
      (other : ¬ chars.map SourceChar.value <+: cursor.rest) :
      Means grammar limit ⟨.atom (.literal quote chars span), depth, cursor⟩ (.failed none) cursor
  | class_match {inverted members span depth cursor char after}
      (accepted : ClassMember.Accept inverted members char) (read : cursor.Reads [char] after) :
      Means grammar limit ⟨.atom (.charClass inverted members span), depth, cursor⟩
        (.matched (.text (String.singleton char))) after
  | class_miss {inverted members span depth cursor}
      (refused : ∀ char ∈ cursor.rest.head?, ¬ ClassMember.Accept inverted members char) :
      Means grammar limit ⟨.atom (.charClass inverted members span), depth, cursor⟩
        (.failed none) cursor
  -- suffixes: an optional atom goes back to where it began if it does not match
  | once {atom depth cursor outcome after}
      (inner : Means grammar limit ⟨.atom atom, depth, cursor⟩ outcome after) :
      Means grammar limit ⟨.suffixed atom none, depth, cursor⟩ outcome after
  | optional_match {atom depth cursor value after}
      (inner : Means grammar limit ⟨.atom atom, depth, cursor⟩ (.matched value) after) :
      Means grammar limit ⟨.suffixed atom (some .optional), depth, cursor⟩ (.matched value) after
  | optional_miss {atom depth cursor captured stop}
      (inner : Means grammar limit ⟨.atom atom, depth, cursor⟩ (.failed captured) stop) :
      Means grammar limit ⟨.suffixed atom (some .optional), depth, cursor⟩ (.matched .absent) cursor
  | zero_or_more {atom depth cursor outcome after}
      (inner : Means grammar limit ⟨.items atom false [], depth, cursor⟩ outcome after) :
      Means grammar limit ⟨.suffixed atom (some .zeroOrMore), depth, cursor⟩ outcome after
  | one_or_more {atom depth cursor outcome after}
      (inner : Means grammar limit ⟨.items atom true [], depth, cursor⟩ outcome after) :
      Means grammar limit ⟨.suffixed atom (some .oneOrMore), depth, cursor⟩ outcome after
  -- items: the first attempt that fails ends them, and the cursor goes back to where it began
  | items_none {atom depth cursor captured stop}
      (inner : Means grammar limit ⟨.atom atom, depth, cursor⟩ (.failed captured) stop) :
      Means grammar limit ⟨.items atom true [], depth, cursor⟩ (.failed none) cursor
  | items_end {atom atLeastOne earlier depth cursor captured stop}
      (enough : atLeastOne = true → earlier ≠ [])
      (inner : Means grammar limit ⟨.atom atom, depth, cursor⟩ (.failed captured) stop) :
      Means grammar limit ⟨.items atom atLeastOne earlier, depth, cursor⟩
        (.matched (.list earlier)) cursor
  | items_next {atom atLeastOne earlier depth cursor value middle outcome after}
      (item : Means grammar limit ⟨.atom atom, depth, cursor⟩ (.matched value) middle)
      (moved : middle.offset ≠ cursor.offset)
      (rest : Means grammar limit ⟨.items atom atLeastOne (earlier ++ [value]), depth, middle⟩
        outcome after) :
      Means grammar limit ⟨.items atom atLeastOne earlier, depth, cursor⟩ outcome after
  -- parts: the mark asks for the text that the atom consumed under its suffix
  | part_value {part depth cursor outcome after} (unmarked : part.stringify = false)
      (inner : Means grammar limit ⟨.suffixed part.atom part.suffix, depth, cursor⟩ outcome after) :
      Means grammar limit ⟨.part part, depth, cursor⟩ outcome after
  | part_text {part depth cursor value after chars} (marked : part.stringify = true)
      (inner : Means grammar limit ⟨.suffixed part.atom part.suffix, depth, cursor⟩
        (.matched value) after)
      (read : cursor.Reads chars after) :
      Means grammar limit ⟨.part part, depth, cursor⟩ (.matched (.text (String.ofList chars))) after
  | part_miss {part depth cursor captured stop} (marked : part.stringify = true)
      (inner : Means grammar limit ⟨.suffixed part.atom part.suffix, depth, cursor⟩
        (.failed captured) stop) :
      Means grammar limit ⟨.part part, depth, cursor⟩ (.failed captured) stop
  -- sequences: the first part that fails ends them, and the cursor stays where that happened
  | parts_end {record depth cursor} :
      Means grammar limit ⟨.parts [] record, depth, cursor⟩ (.matched (.record record)) cursor
  | parts_stop {part parts record depth cursor captured stop}
      (first : Means grammar limit ⟨.part part, depth, cursor⟩ (.failed captured) stop) :
      Means grammar limit ⟨.parts (part :: parts) record, depth, cursor⟩
        (.failed (some record)) stop
  | parts_next {part parts record depth cursor value middle outcome after}
      (first : Means grammar limit ⟨.part part, depth, cursor⟩ (.matched value) middle)
      (rest : Means grammar limit ⟨.parts parts (part.keep value record), depth, middle⟩
        outcome after) :
      Means grammar limit ⟨.parts (part :: parts) record, depth, cursor⟩ outcome after
  -- unions: every case begins at the same cursor
  | cases_end {captured depth cursor} :
      Means grammar limit ⟨.cases [] captured, depth, cursor⟩ (.failed captured) cursor
  | cases_match {target targets captured depth cursor value after}
      (first : Means grammar limit ⟨.rule target.name, depth, cursor⟩ (.matched value) after) :
      Means grammar limit ⟨.cases (target :: targets) captured, depth, cursor⟩
        (.matched value) after
  | cases_next {target targets captured depth cursor last stop outcome after}
      (first : Means grammar limit ⟨.rule target.name, depth, cursor⟩ (.failed last) stop)
      (rest : Means grammar limit ⟨.cases targets last, depth, cursor⟩ outcome after) :
      Means grammar limit ⟨.cases (target :: targets) captured, depth, cursor⟩ outcome after

/-- An attempt needs to know how another one comes out. -/
inductive Demands (grammar : Grammar) (limit : Nat) : Attempt → Attempt → Prop where
  | sequence {name ident parts span depth cursor}
      (found : grammar.rule? name = some (.sequence ident parts span)) (below : depth < limit) :
      Demands grammar limit ⟨.rule name, depth, cursor⟩ ⟨.parts parts .empty, depth + 1, cursor⟩
  | union {name ident targets span depth cursor}
      (found : grammar.rule? name = some (.union ident targets span)) (below : depth < limit) :
      Demands grammar limit ⟨.rule name, depth, cursor⟩ ⟨.cases targets none, depth + 1, cursor⟩
  | reference {target depth cursor} :
      Demands grammar limit ⟨.atom (.reference target), depth, cursor⟩
        ⟨.rule target.name, depth, cursor⟩
  | once {atom depth cursor} :
      Demands grammar limit ⟨.suffixed atom none, depth, cursor⟩ ⟨.atom atom, depth, cursor⟩
  | optional {atom depth cursor} :
      Demands grammar limit ⟨.suffixed atom (some .optional), depth, cursor⟩
        ⟨.atom atom, depth, cursor⟩
  | zero_or_more {atom depth cursor} :
      Demands grammar limit ⟨.suffixed atom (some .zeroOrMore), depth, cursor⟩
        ⟨.items atom false [], depth, cursor⟩
  | one_or_more {atom depth cursor} :
      Demands grammar limit ⟨.suffixed atom (some .oneOrMore), depth, cursor⟩
        ⟨.items atom true [], depth, cursor⟩
  | item {atom atLeastOne earlier depth cursor} :
      Demands grammar limit ⟨.items atom atLeastOne earlier, depth, cursor⟩
        ⟨.atom atom, depth, cursor⟩
  | next_item {atom atLeastOne earlier depth cursor value middle}
      (item : Means grammar limit ⟨.atom atom, depth, cursor⟩ (.matched value) middle)
      (moved : middle.offset ≠ cursor.offset) :
      Demands grammar limit ⟨.items atom atLeastOne earlier, depth, cursor⟩
        ⟨.items atom atLeastOne (earlier ++ [value]), depth, middle⟩
  | suffixed {part depth cursor} :
      Demands grammar limit ⟨.part part, depth, cursor⟩
        ⟨.suffixed part.atom part.suffix, depth, cursor⟩
  | part {part parts record depth cursor} :
      Demands grammar limit ⟨.parts (part :: parts) record, depth, cursor⟩
        ⟨.part part, depth, cursor⟩
  | next_part {part parts record depth cursor value middle}
      (first : Means grammar limit ⟨.part part, depth, cursor⟩ (.matched value) middle) :
      Demands grammar limit ⟨.parts (part :: parts) record, depth, cursor⟩
        ⟨.parts parts (part.keep value record), depth, middle⟩
  | case {target targets captured depth cursor} :
      Demands grammar limit ⟨.cases (target :: targets) captured, depth, cursor⟩
        ⟨.rule target.name, depth, cursor⟩
  | next_case {target targets captured depth cursor last stop}
      (first : Means grammar limit ⟨.rule target.name, depth, cursor⟩ (.failed last) stop) :
      Demands grammar limit ⟨.cases (target :: targets) captured, depth, cursor⟩
        ⟨.cases targets last, depth, cursor⟩

/-- An attempt at which a fault happens: an undeclared rule, a call beyond the limit, or an item
that matches without moving the cursor. -/
inductive Breaks (grammar : Grammar) (limit : Nat) : Attempt → Fault → Prop where
  | undeclared {name depth cursor} (missing : grammar.rule? name = none) :
      Breaks grammar limit ⟨.rule name, depth, cursor⟩ (.unresolved name)
  | too_deep {name rule depth cursor} (declared : grammar.rule? name = some rule)
      (full : limit ≤ depth) :
      Breaks grammar limit ⟨.rule name, depth, cursor⟩ (.tooDeep name limit cursor.offset)
  | stuck {atom atLeastOne earlier depth cursor value after}
      (item : Means grammar limit ⟨.atom atom, depth, cursor⟩ (.matched value) after)
      (still : after.offset = cursor.offset) :
      Breaks grammar limit ⟨.items atom atLeastOne earlier, depth, cursor⟩
        (.noProgress cursor.offset)

/-- A fault keeps an attempt from having an outcome. -/
def Fatal (grammar : Grammar) (limit : Nat) (attempt : Attempt) (fault : Fault) : Prop :=
  ∃ last, Relation.ReflTransGen (grammar.Demands limit) attempt last ∧
    grammar.Breaks limit last fault

/-- An attempt has an outcome, or a fault keeps it from having one. -/
def Settles (grammar : Grammar) (limit : Nat) (attempt : Attempt) : Prop :=
  (∃ outcome after, grammar.Means limit attempt outcome after) ∨
    ∃ fault, grammar.Fatal limit attempt fault

section

variable {grammar : Grammar} {limit : Nat} {attempt next : Attempt} {outcome : Outcome}
  {after : Cursor} {fault : Fault} {atom : Atom} {depth : Nat}

/-- The cursor only moves forward. -/
theorem Means.before (h : grammar.Means limit attempt outcome after) :
    attempt.cursor.Before after := by
  induction h with
  | sequence_match _ _ _ ih | sequence_miss _ _ _ ih | union _ _ _ ih | reference _ ih | once _ ih
  | optional_match _ ih | zero_or_more _ ih | one_or_more _ ih | part_value _ _ ih
  | part_text _ _ _ ih | part_miss _ _ ih | parts_stop _ ih | cases_match _ ih => exact ih
  | literal_match read | class_match _ read => exact ⟨_, read⟩
  | items_next _ _ _ ih ih' | parts_next _ _ ih ih' => exact ih.trans ih'
  | cases_next _ _ _ ih => exact ih
  | literal_miss | class_miss | optional_miss | items_none | items_end | parts_end | cases_end =>
      exact .refl _

/-- The parts of a sequence make up a record, also as far as they matched. -/
theorem Means.of_parts {parts : List Part} {record : Record Value} {cursor : Cursor}
    (h : grammar.Means limit ⟨.parts parts record, depth, cursor⟩ outcome after) :
    (∃ kept, outcome = .matched (.record kept)) ∨ ∃ kept, outcome = .failed (some kept) := by
  induction parts generalizing record cursor with
  | nil =>
      cases h
      exact .inl ⟨record, rfl⟩
  | cons part parts ih =>
      cases h with
      | parts_stop first => exact .inr ⟨record, rfl⟩
      | parts_next first rest => exact ih rest

/-- A fault reaches every attempt that demands the broken one. -/
theorem Demands.settles (demanded : grammar.Demands limit attempt next)
    (fatal : grammar.Fatal limit next fault) : grammar.Settles limit attempt := by
  obtain ⟨last, reached, breaks⟩ := fatal
  exact .inr ⟨fault, last, .head demanded reached, breaks⟩

theorem Breaks.settles (breaks : grammar.Breaks limit attempt fault) :
    grammar.Settles limit attempt :=
  .inr ⟨fault, attempt, .refl, breaks⟩

theorem Means.settles (h : grammar.Means limit attempt outcome after) :
    grammar.Settles limit attempt :=
  .inl ⟨outcome, after, h⟩

theorem settles_items (item : ∀ cursor, grammar.Settles limit ⟨.atom atom, depth, cursor⟩)
    (atLeastOne : Bool) (earlier : List Value) (cursor : Cursor) :
    grammar.Settles limit ⟨.items atom atLeastOne earlier, depth, cursor⟩ := by
  -- each item that moves the cursor leaves fewer characters
  induction left : cursor.rest.length using Nat.strong_induction_on generalizing earlier cursor with
  | _ left ih =>
  subst left
  rcases item cursor with ⟨outcome, after, means⟩ | ⟨fault, fatal⟩
  · cases outcome with
    | failed captured =>
        by_cases enough : atLeastOne = true → earlier ≠ []
        · exact (Means.items_end enough means).settles
        · obtain ⟨rfl, none_yet⟩ := Classical.not_imp.mp enough
          rw [not_not] at none_yet
          subst none_yet
          exact (Means.items_none means).settles
    | matched value =>
        by_cases still : after.offset = cursor.offset
        · exact (Breaks.stuck means still).settles
        · rcases ih _ (means.before.length_lt still) (earlier ++ [value]) after rfl with
            ⟨outcome, last, rest⟩ | ⟨fault, fatal⟩
          · exact (Means.items_next means still rest).settles
          · exact (Demands.next_item means still).settles fatal
  · exact Demands.item.settles fatal

theorem settles_suffixed (item : ∀ cursor, grammar.Settles limit ⟨.atom atom, depth, cursor⟩)
    (suffix : Option Suffix) (cursor : Cursor) :
    grammar.Settles limit ⟨.suffixed atom suffix, depth, cursor⟩ := by
  rcases suffix with - | - | - | -
  · rcases item cursor with ⟨outcome, after, means⟩ | ⟨fault, fatal⟩
    · exact (Means.once means).settles
    · exact Demands.once.settles fatal
  · rcases settles_items item true [] cursor with ⟨outcome, after, means⟩ | ⟨fault, fatal⟩
    · exact (Means.one_or_more means).settles
    · exact Demands.one_or_more.settles fatal
  · rcases settles_items item false [] cursor with ⟨outcome, after, means⟩ | ⟨fault, fatal⟩
    · exact (Means.zero_or_more means).settles
    · exact Demands.zero_or_more.settles fatal
  · rcases item cursor with ⟨outcome, after, means⟩ | ⟨fault, fatal⟩
    · cases outcome with
      | matched value => exact (Means.optional_match means).settles
      | failed captured => exact (Means.optional_miss means).settles
    · exact Demands.optional.settles fatal

theorem settles_atom
    (called : ∀ name cursor, grammar.Settles limit ⟨.rule name, depth, cursor⟩) (atom : Atom)
    (cursor : Cursor) : grammar.Settles limit ⟨.atom atom, depth, cursor⟩ := by
  cases atom with
  | reference target =>
      rcases called target.name cursor with ⟨outcome, after, means⟩ | ⟨fault, fatal⟩
      · exact (Means.reference means).settles
      · exact Demands.reference.settles fatal
  | literal quote chars span =>
      by_cases next : chars.map SourceChar.value <+: cursor.rest
      · obtain ⟨rest, split⟩ := next
        have read : cursor.Reads (chars.map SourceChar.value)
            ⟨cursor.offset + String.utf8Len (chars.map SourceChar.value), rest⟩ :=
          ⟨split.symm, rfl⟩
        exact (Means.literal_match read).settles
      · exact (Means.literal_miss next).settles
  | charClass inverted members span =>
      obtain ⟨offset, - | ⟨char, rest⟩⟩ := cursor
      · exact (Means.class_miss fun _ among => by cases among).settles
      · by_cases accepted : ClassMember.Accept inverted members char
        · have read : Cursor.Reads ⟨offset, char :: rest⟩ [char]
              ⟨offset + String.utf8Len [char], rest⟩ := ⟨rfl, rfl⟩
          exact (Means.class_match accepted read).settles
        · refine (Means.class_miss fun other among => ?_).settles
          cases among
          exact accepted

theorem settles_part
    (called : ∀ name cursor, grammar.Settles limit ⟨.rule name, depth, cursor⟩) (part : Part)
    (cursor : Cursor) : grammar.Settles limit ⟨.part part, depth, cursor⟩ := by
  rcases settles_suffixed (settles_atom called part.atom) part.suffix cursor with
    ⟨outcome, after, means⟩ | ⟨fault, fatal⟩
  · cases marked : part.stringify with
    | false => exact (Means.part_value marked means).settles
    | true =>
        cases outcome with
        | matched value =>
            obtain ⟨chars, read⟩ := means.before
            exact (Means.part_text marked means read).settles
        | failed captured => exact (Means.part_miss marked means).settles
  · exact Demands.suffixed.settles fatal

theorem settles_parts
    (called : ∀ name cursor, grammar.Settles limit ⟨.rule name, depth, cursor⟩) (parts : List Part)
    (record : Record Value) (cursor : Cursor) :
    grammar.Settles limit ⟨.parts parts record, depth, cursor⟩ := by
  induction parts generalizing record cursor with
  | nil => exact Means.parts_end.settles
  | cons part parts ih =>
      rcases settles_part called part cursor with ⟨outcome, middle, means⟩ | ⟨fault, fatal⟩
      · cases outcome with
        | failed captured => exact (Means.parts_stop means).settles
        | matched value =>
            rcases ih (part.keep value record) middle with ⟨outcome, after, rest⟩ | ⟨fault, fatal⟩
            · exact (Means.parts_next means rest).settles
            · exact (Demands.next_part means).settles fatal
      · exact Demands.part.settles fatal

theorem settles_cases
    (called : ∀ name cursor, grammar.Settles limit ⟨.rule name, depth, cursor⟩)
    (targets : List Ident) (captured : Option (Record Value)) (cursor : Cursor) :
    grammar.Settles limit ⟨.cases targets captured, depth, cursor⟩ := by
  induction targets generalizing captured with
  | nil => exact Means.cases_end.settles
  | cons target targets ih =>
      rcases called target.name cursor with ⟨outcome, stop, means⟩ | ⟨fault, fatal⟩
      · cases outcome with
        | matched value => exact (Means.cases_match means).settles
        | failed last =>
            rcases ih last with ⟨outcome, after, rest⟩ | ⟨fault, fatal⟩
            · exact (Means.cases_next means rest).settles
            · exact (Demands.next_case means).settles fatal
      · exact Demands.case.settles fatal

/-- Every call of a rule has an outcome, or a fault keeps it from having one. -/
theorem settles (grammar : Grammar) (limit depth : Nat) (name : String) (cursor : Cursor) :
    grammar.Settles limit ⟨.rule name, depth, cursor⟩ := by
  -- the number of calls that can still be opened bounds the nesting
  induction left : limit - depth generalizing depth name cursor with
  | zero =>
      cases declared : grammar.rule? name with
      | none => exact (Breaks.undeclared declared).settles
      | some rule => exact (Breaks.too_deep declared (by omega)).settles
  | succ left ih =>
      have below : depth < limit := by omega
      have called : ∀ name cursor, grammar.Settles limit ⟨.rule name, depth + 1, cursor⟩ :=
        fun name cursor => ih (depth + 1) name cursor (by omega)
      cases declared : grammar.rule? name with
      | none => exact (Breaks.undeclared declared).settles
      | some rule =>
          cases rule with
          | union ident targets span =>
              rcases settles_cases called targets none cursor with
                ⟨outcome, after, means⟩ | ⟨fault, fatal⟩
              · exact (Means.union declared below means).settles
              · exact (Demands.union declared below).settles fatal
          | sequence ident parts span =>
              rcases settles_parts called parts .empty cursor with
                ⟨outcome, after, means⟩ | ⟨fault, fatal⟩
              · obtain ⟨record, rfl⟩ | ⟨record, rfl⟩ := means.of_parts
                · exact (Means.sequence_match declared below means).settles
                · exact (Means.sequence_miss declared below means).settles
              · exact (Demands.sequence declared below).settles fatal

end

end Grammar

end TracedGrammar

import TracedGrammar.Proofs.Document.Outcome

/-!
# Nodes are where their spans say

Every node of a syntax tree has its place in the text. Names and characters are exactly there, and
the places of the nodes that a node is made of lie within its own one behind the other
(`Span.Covers`). The rules of a document leave nothing between them (`Span.Tiles`).

A scanner is followed through the text with the places it has laid so far (`Scanner.Lays`). There is
one lemma for each way to build a scanner; a range put around an item covers what was laid for it
and takes its place.

The theorem to read first is `spans_of_read`.
-/

namespace TracedGrammar

/-- The spans lie one behind the other, from an offset on and up to another one. -/
def Span.InOrder : (start : Nat) → List Span → (stop : Nat) → Prop
  | start, [], stop => start ≤ stop
  | start, span :: spans, stop =>
      start ≤ span.start ∧ span.start ≤ span.stop ∧ InOrder span.stop spans stop

/-- The spans lie one behind the other within a span. -/
def Span.Covers (outer : Span) (spans : List Span) : Prop :=
  InOrder outer.start spans outer.stop

/-- Each span begins where the one before ends, the first one at an offset, and the last one ends at
another offset. -/
def Span.Tiles : (start : Nat) → List Span → (stop : Nat) → Prop
  | start, [], stop => start = stop
  | start, span :: spans, stop =>
      span.start = start ∧ span.start ≤ span.stop ∧ Tiles span.stop spans stop

instance : ∀ start spans stop, Decidable (Span.InOrder start spans stop)
  | start, [], stop => inferInstanceAs (Decidable (start ≤ stop))
  | start, span :: spans, stop =>
      have := instDecidableInOrder span.stop spans stop
      inferInstanceAs (Decidable (start ≤ span.start ∧ span.start ≤ span.stop ∧ _))

instance (outer : Span) (spans : List Span) : Decidable (outer.Covers spans) :=
  inferInstanceAs (Decidable (Span.InOrder ..))

/-- The place of a member of a class. -/
def ClassMember.span : ClassMember → Span
  | range _ _ span => span
  | single char => char.span

/-! ### Nodes in their places -/

/-- A name is where its span says. -/
def Ident.IsPlaced (text : String) (ident : Ident) : Prop :=
  IsPiece text ident.span.start ident.span.stop ident.name

/-- A character is where its span says, with a backslash if it is escaped. -/
def SourceChar.IsPlaced (text : String) (char : SourceChar) : Prop :=
  IsPiece text char.span.start char.span.stop (String.ofList char.written)

/-- The characters of a member of a class are in their places. -/
def ClassMember.IsPlaced (text : String) : ClassMember → Prop
  | range low high span =>
      span.Covers [low.span, high.span] ∧ low.IsPlaced text ∧ high.IsPlaced text
  | single char => char.IsPlaced text

/-- The nodes that an atom is made of are in their places. -/
def Atom.IsPlaced (text : String) : Atom → Prop
  | reference target => target.IsPlaced text
  | charClass _ members span =>
      span.Covers (members.map ClassMember.span) ∧ ∀ member ∈ members, member.IsPlaced text
  | literal _ chars span =>
      span.Covers (chars.map SourceChar.span) ∧ ∀ char ∈ chars, char.IsPlaced text

/-- The nodes that a part is made of are in their places. -/
structure Part.IsPlaced (text : String) (part : Part) : Prop where
  covers : part.span.Covers (part.field.toList.map Ident.span ++ [part.atom.span])
  field : ∀ field ∈ part.field, field.IsPlaced text
  atom : part.atom.IsPlaced text

/-- The nodes that a rule is made of are in their places. -/
def Rule.IsPlaced (text : String) : Rule → Prop
  | sequence name parts span =>
      span.Covers (name.span :: parts.map Part.span) ∧ name.IsPlaced text ∧
        ∀ part ∈ parts, part.IsPlaced text
  | union name cases span =>
      span.Covers (name.span :: cases.map Ident.span) ∧ name.IsPlaced text ∧
        ∀ target ∈ cases, target.IsPlaced text

/-- The rules of a grammar are in their places, and fill the text behind the blanks that it begins
with. -/
structure Grammar.IsPlaced (text : String) (grammar : Grammar) : Prop where
  span_eq : grammar.span = ⟨0, text.utf8ByteSize⟩
  tiles : Span.Tiles (String.utf8Len (text.toList.takeWhile isGap)) (grammar.rules.map Rule.span)
    text.utf8ByteSize
  rules : ∀ rule ∈ grammar.rules, rule.IsPlaced text

namespace Span.InOrder

variable {start middle stop : Nat} {spans more : List Span}

theorem le (h : InOrder start spans stop) : start ≤ stop := by
  induction spans generalizing start with
  | nil => exact h
  | cons span spans ih => exact h.1.trans (h.2.1.trans (ih h.2.2))

theorem append (h : InOrder start spans middle) (h' : InOrder middle more stop) :
    InOrder start (spans ++ more) stop := by
  induction spans generalizing start with
  | nil =>
      cases more with
      | nil => exact h.trans h'
      | cons span more => exact ⟨h.trans h'.1, h'.2⟩
  | cons span spans ih => exact ⟨h.1, h.2.1, ih h.2.2⟩

/-- Each of the spans lies between the offsets. -/
theorem of_mem {span : Span} (h : InOrder start spans stop) (among : span ∈ spans) :
    InOrder start [span] stop := by
  induction spans generalizing start with
  | nil => cases among
  | cons first spans ih =>
      obtain ⟨begins, forward, rest⟩ := h
      rcases List.mem_cons.mp among with rfl | later
      · exact ⟨begins, forward, rest.le⟩
      · obtain ⟨behind, onward, ends⟩ := ih rest later
        exact ⟨begins.trans (forward.trans behind), onward, ends⟩

example : Span.Covers ⟨0, 6⟩ [⟨1, 4⟩, ⟨4, 6⟩] ∧ ¬ Span.Covers ⟨0, 6⟩ [⟨1, 4⟩, ⟨3, 6⟩] := by decide

end Span.InOrder

theorem Span.Covers.trans {outer middle inner : Span} (h : outer.Covers [middle])
    (h' : middle.Covers [inner]) : outer.Covers [inner] :=
  ⟨h.1.trans h'.1, h'.2.1, h'.2.2.trans h.2.2⟩

/-! ### Scanners that lay spans -/

namespace Scanner

/-- Wherever an item is scanned in a text, spans lie between the cursors before and after it, and
these spans and the item are related. -/
def Lays {α : Type} (scan : Scanner α) (text : String) (post : List Span → α → Prop) : Prop :=
  ∀ cursor item after, (Cursor.start text).Before cursor → scan.run cursor = some (item, after) →
    cursor.Before after ∧
      ∃ spans, Span.InOrder cursor.offset spans after.offset ∧ post spans item

variable {α β : Type} {scan other : Scanner α} {text : String} {next : α → Scanner β}

namespace Lays

variable {post : List Span → α → Prop} {post' : List Span → β → Prop}

theorem pure {item : α} (h : post [] item) : Lays (Pure.pure item) text post := by
  intro cursor item after begun scanned
  cases scanned
  exact ⟨.refl cursor, [], Nat.le_refl _, h⟩

theorem bind (h : scan.Lays text post) (onward : ∀ spans item, post spans item →
    (next item).Lays text fun more => post' (spans ++ more)) :
    (scan >>= next).Lays text post' := by
  intro cursor last after begun scanned
  obtain ⟨item, middle, first, second⟩ := run_bind_eq_some.mp scanned
  obtain ⟨to_middle, spans, ordered, now⟩ := h cursor item middle begun first
  obtain ⟨to_after, more, further, done⟩ :=
    onward spans item now middle last after (begun.trans to_middle) second
  exact ⟨to_middle.trans to_after, spans ++ more, ordered.append further, done⟩

theorem map {convert : α → β} (h : scan.Lays text fun spans item => post' spans (convert item)) :
    (convert <$> scan).Lays text post' := by
  rw [map_eq_pure_bind]
  refine .bind h fun spans item now => .pure ?_
  rwa [List.append_nil]

theorem or_else (h : scan.Lays text post) (h' : other.Lays text post) :
    (scan <|> other).Lays text post := by
  intro cursor item after begun scanned
  rcases run_or_else_eq_some.mp scanned with first | ⟨-, second⟩
  · exact h cursor item after begun first
  · exact h' cursor item after begun second

/-- What is scanned without places lays nothing. -/
theorem silent {related : List Char → α → Prop} (h : scan.Ensures related) :
    scan.Lays text fun spans _ => spans = [] := by
  intro cursor item after _ scanned
  obtain ⟨chars, reads, -⟩ := h cursor item after scanned
  exact ⟨⟨chars, reads⟩, [], Cursor.Before.offset_le ⟨chars, reads⟩, rfl⟩

theorem optional (h : scan.Lays text post) : (optional scan).Lays text fun spans item? =>
    (item? = none ∧ spans = []) ∨ ∃ item, item? = some item ∧ post spans item := by
  intro cursor item? after begun scanned
  rcases run_optional_eq_some.mp scanned with ⟨found, first, rfl⟩ | ⟨-, rfl, rfl⟩
  · obtain ⟨onward, spans, ordered, now⟩ := h cursor found after begun first
    exact ⟨onward, spans, ordered, .inr ⟨found, rfl, now⟩⟩
  · exact ⟨.refl cursor, [], Nat.le_refl _, .inl ⟨rfl, rfl⟩⟩

/-- The range of an item covers what was laid for it, and takes its place. -/
theorem spanned {scan : Scanner (Span → α)}
    (h : scan.Lays text fun spans item => ∀ outer, outer.Covers spans → post [outer] (item outer)) :
    (spanned scan).Lays text post := by
  intro cursor item after begun scanned
  obtain ⟨found, first, rfl⟩ := run_spanned_eq_some.mp scanned
  obtain ⟨onward, spans, ordered, now⟩ := h cursor found after begun first
  exact ⟨onward, [⟨cursor.offset, after.offset⟩], ⟨Nat.le_refl _, ordered.le, Nat.le_refl _⟩,
    now _ ordered⟩

/-- Items that lay one span each lay these one behind the other. -/
theorem many {place : α → Span} {good : α → Prop}
    (h : scan.Lays text fun spans item => spans = [place item] ∧ good item) :
    (many scan).Lays text fun spans items =>
      spans = items.map place ∧ ∀ item ∈ items, good item := by
  suffices ∀ budget, (manyWithin scan budget).Lays text fun spans items =>
      spans = items.map place ∧ ∀ item ∈ items, good item from
    fun cursor => this cursor.rest.length cursor
  intro budget
  induction budget with
  | zero => exact .pure ⟨rfl, by simp⟩
  | succ budget ih =>
      intro cursor items after begun scanned
      rcases run_many_within_eq_some.mp scanned with
        ⟨-, rfl, rfl⟩ | ⟨first, middle, others, found, rest, rfl⟩
      · exact ⟨.refl cursor, [], Nat.le_refl _, rfl, by simp⟩
      · obtain ⟨to_middle, _, ordered, rfl, now⟩ := h cursor first middle begun found
        obtain ⟨to_after, _, further, rfl, all⟩ :=
          ih middle others after (begun.trans to_middle) rest
        exact ⟨to_middle.trans to_after, _, ordered.append further, rfl, by simpa using ⟨now, all⟩⟩

theorem many1 {place : α → Span} {good : α → Prop}
    (h : scan.Lays text fun spans item => spans = [place item] ∧ good item) :
    (many1 scan).Lays text fun spans items =>
      spans = items.map place ∧ ∀ item ∈ items, good item := by
  refine .bind h fun _ first now => .bind h.many fun _ others all => .pure ?_
  obtain ⟨rfl, good_first⟩ := now
  obtain ⟨rfl, good_others⟩ := all
  exact ⟨by simp, by simpa using ⟨good_first, good_others⟩⟩

end Lays

/-- The place of each item is the range that it was scanned from. -/
def Marks (scan : Scanner α) (place : α → Span) : Prop :=
  ∀ cursor item after, scan.run cursor = some (item, after) →
    place item = ⟨cursor.offset, after.offset⟩

namespace Marks

variable {place : α → Span}

theorem spanned {scan : Scanner (Span → α)}
    (h : scan.Ensures fun _ item => ∀ outer, place (item outer) = outer) :
    (spanned scan).Marks place := by
  intro cursor item after scanned
  obtain ⟨found, first, rfl⟩ := run_spanned_eq_some.mp scanned
  obtain ⟨chars, -, place_eq⟩ := h cursor found after first
  exact place_eq _

theorem or_else (h : scan.Marks place) (h' : other.Marks place) :
    (scan <|> other).Marks place := by
  intro cursor item after scanned
  rcases run_or_else_eq_some.mp scanned with first | ⟨-, second⟩
  · exact h cursor item after first
  · exact h' cursor item after second

/-- Items whose places are all that is read leave nothing between them. -/
theorem many {related : List Char → α → Prop} (h : scan.Marks place) (reads : scan.Ensures related)
    {cursor after : Cursor} {items : List α}
    (scanned : (many scan).run cursor = some (items, after)) :
    Span.Tiles cursor.offset (items.map place) after.offset := by
  suffices ∀ budget cursor items, (manyWithin scan budget).run cursor = some (items, after) →
      Span.Tiles cursor.offset (items.map place) after.offset from this _ cursor items scanned
  intro budget
  induction budget with
  | zero =>
      intro cursor items scanned
      cases scanned
      rfl
  | succ budget ih =>
      intro cursor items scanned
      rcases run_many_within_eq_some.mp scanned with
        ⟨-, rfl, rfl⟩ | ⟨first, middle, others, found, rest, rfl⟩
      · rfl
      · obtain ⟨chars, read, -⟩ := reads cursor first middle found
        have further := ih middle others rest
        rw [List.map_cons, h cursor first middle found]
        exact ⟨rfl, Cursor.Before.offset_le ⟨chars, read⟩, further⟩

theorem many1 {related : List Char → α → Prop} (h : scan.Marks place)
    (reads : scan.Ensures related) {cursor after : Cursor} {items : List α}
    (scanned : (many1 scan).run cursor = some (items, after)) :
    Span.Tiles cursor.offset (items.map place) after.offset := by
  obtain ⟨first, middle, found, rest⟩ := run_bind_eq_some.mp scanned
  obtain ⟨others, last, further, same⟩ := run_bind_eq_some.mp rest
  cases same
  obtain ⟨chars, read, -⟩ := reads cursor first middle found
  rw [List.map_cons, h cursor first middle found]
  exact ⟨rfl, Cursor.Before.offset_le ⟨chars, read⟩, h.many reads further⟩

end Marks

end Scanner

open Scanner (blanks_ensures Lays Marks)

/-! ### The scanners of grammar documents -/

/-- What is read between two cursors of a text is there. -/
theorem Cursor.Reads.is_piece {text : String} {chars : List Char} {earlier later : Cursor}
    (h : earlier.Reads chars later) (begun : (Cursor.start text).Before earlier) :
    IsPiece text earlier.offset later.offset (String.ofList chars) := by
  rw [← h.textTo_eq]
  exact (begun.spans ⟨chars, h⟩).piece

variable {text : String}

theorem Ident.scan_lays :
    Ident.scan.Lays text fun spans ident => spans = [ident.span] ∧ ident.IsPlaced text := by
  intro cursor ident after begun scanned
  obtain ⟨found, read, rfl⟩ := Scanner.run_spanned_eq_some.mp scanned
  obtain ⟨name, middle, named, rest⟩ := Scanner.run_bind_eq_some.mp read
  rw [StateT.run_bind, Scanner.run_blanks] at rest
  cases rest
  obtain ⟨_, reads, rfl, -⟩ := Scanner.name_ensures cursor name middle named
  -- the place of a name leaves out the blanks behind it, unlike what is scanned
  have gap := middle.before_behind_gap
  have stop_eq : cursor.offset + name.utf8ByteSize = middle.offset := by
    rw [reads.offset_eq, String.utf8Len_toList]
  have piece := reads.is_piece begun
  rw [String.ofList_toList, ← stop_eq] at piece
  refine ⟨Cursor.Before.trans ⟨_, reads⟩ gap, [⟨cursor.offset, cursor.offset + name.utf8ByteSize⟩],
    ⟨Nat.le_refl _, Nat.le_add_right _ _, ?_⟩, rfl, piece⟩
  exact (Nat.le_of_eq stop_eq).trans gap.offset_le

namespace SourceChar

variable {allowed excluded : String}

theorem scan_marks : (scan allowed excluded).Marks span := by
  refine .or_else (.spanned ?_) (.spanned ?_)
  · exact .bind (.exactly _) fun _ _ _ => .bind (.char _) fun _ _ _ => .pure fun _ => rfl
  · exact .bind (.char _) fun _ _ _ => .pure fun _ => rfl

theorem scan_lays : (scan allowed excluded).Lays text fun spans char =>
    spans = [char.span] ∧ char.IsPlaced text := by
  intro cursor char after begun scanned
  obtain ⟨_, reads, rfl, -⟩ := scan_ensures cursor char after scanned
  have onward : cursor.Before after := ⟨_, reads⟩
  have span_eq := scan_marks cursor char after scanned
  refine ⟨onward, [char.span], ?_, rfl, ?_⟩
  · rw [span_eq]
    exact ⟨Nat.le_refl _, onward.offset_le, Nat.le_refl _⟩
  · rw [IsPlaced, span_eq]
    exact reads.is_piece begun

theorem scan_quoted_lays (quote : Quote) : (scanQuoted quote).Lays text fun spans char =>
    spans = [char.span] ∧ char.IsPlaced text := by
  cases quote <;> exact scan_lays

end SourceChar

theorem ClassMember.scan_lays : ClassMember.scan.Lays text fun spans member =>
    spans = [member.span] ∧ member.IsPlaced text := by
  refine .or_else (.spanned ?_) (.map SourceChar.scan_lays)
  refine .bind SourceChar.scan_lays fun _ low low_placed => ?_
  refine .bind (.silent (.exactly _)) fun _ _ hyphen => ?_
  refine .bind SourceChar.scan_lays fun _ high high_placed => .pure fun outer covers => ?_
  rw [low_placed.1, hyphen, high_placed.1] at covers
  exact ⟨rfl, covers, low_placed.2, high_placed.2⟩

namespace Atom

theorem scan_class_lays : scanClass.Lays text fun spans atom =>
    spans = [atom.span] ∧ atom.IsPlaced text := by
  refine .spanned <| .bind (.silent (.exactly _)) fun _ _ opening => ?_
  refine .bind (.silent (.optional (.exactly _))) fun _ inverted caret => ?_
  refine .bind (.many ClassMember.scan_lays) fun _ members all => ?_
  refine .bind (.silent (.exactly _)) fun _ _ closing => ?_
  refine .bind (.silent blanks_ensures) fun _ _ gap => .pure fun outer covers => ?_
  rw [opening, caret, all.1, closing, gap] at covers
  exact ⟨rfl, by simpa using covers, all.2⟩

theorem scan_literal_lays (quote : Quote) : (scanLiteral quote).Lays text fun spans atom =>
    spans = [atom.span] ∧ atom.IsPlaced text := by
  refine .spanned <| .bind (.silent (.exactly _)) fun _ _ opening => ?_
  refine .bind (.many (SourceChar.scan_quoted_lays quote)) fun _ chars all => ?_
  refine .bind (.silent (.exactly _)) fun _ _ closing => ?_
  refine .bind (.silent blanks_ensures) fun _ _ gap => .pure fun outer covers => ?_
  rw [opening, all.1, closing, gap] at covers
  exact ⟨rfl, by simpa using covers, all.2⟩

theorem scan_lays : Atom.scan.Lays text fun spans atom =>
    spans = [atom.span] ∧ atom.IsPlaced text :=
  .or_else (.or_else (.or_else (.map Ident.scan_lays) scan_class_lays) (scan_literal_lays _))
    (scan_literal_lays _)

end Atom

namespace Part

theorem scan_field_lays : scanField.Lays text fun spans field =>
    spans = [field.span] ∧ field.IsPlaced text := by
  refine .bind Ident.scan_lays fun _ name placed => .bind (.silent (.exactly _)) fun _ _ colon => ?_
  refine .bind (.silent blanks_ensures) fun _ _ gap => .pure ?_
  rw [placed.1, colon, gap]
  exact ⟨rfl, placed.2⟩

theorem scan_lays : Part.scan.Lays text fun spans part =>
    spans = [part.span] ∧ part.IsPlaced text := by
  refine .spanned <| .bind (.optional scan_field_lays) fun _ field field_placed => ?_
  refine .bind (.silent (.optional (.exactly _))) fun _ stringify mark => ?_
  refine .bind Atom.scan_lays fun _ atom placed => ?_
  refine .bind (.silent Suffix.scan_finds.optional) fun _ suffix after => ?_
  refine .pure fun outer covers => ?_
  rw [mark, placed.1, after] at covers
  refine ⟨rfl, ?_, ?_, placed.2⟩
  · rcases field_placed with ⟨rfl, rfl⟩ | ⟨name, rfl, rfl, -⟩
    · exact covers
    · exact covers
  · rcases field_placed with ⟨rfl, -⟩ | ⟨name, rfl, -, name_placed⟩
    · simp
    · simpa using name_placed

end Part

namespace Rule

theorem scan_lays : Rule.scan.Lays text fun spans rule =>
    spans = [rule.span] ∧ rule.IsPlaced text := by
  refine .or_else (.spanned ?_) (.spanned ?_)
  · refine .bind Ident.scan_lays fun _ name placed => ?_
    refine .bind (.silent (.exactly _)) fun _ _ sign => ?_
    refine .bind (.silent blanks_ensures) fun _ _ gap => ?_
    refine .bind (.many1 Ident.scan_lays) fun _ cases all => ?_
    refine .bind (.silent (.exactly _)) fun _ _ closing => ?_
    refine .bind (.silent blanks_ensures) fun _ _ gap' => .pure fun outer covers => ?_
    rw [placed.1, sign, gap, all.1, closing, gap'] at covers
    exact ⟨rfl, by simpa using covers, placed.2, all.2⟩
  · refine .bind Ident.scan_lays fun _ name placed => ?_
    refine .bind (.silent (.exactly _)) fun _ _ sign => ?_
    refine .bind (.silent blanks_ensures) fun _ _ gap => ?_
    refine .bind (.many1 Part.scan_lays) fun _ parts all => ?_
    refine .bind (.silent (.exactly _)) fun _ _ closing => ?_
    refine .bind (.silent blanks_ensures) fun _ _ gap' => .pure fun outer covers => ?_
    rw [placed.1, sign, gap, all.1, closing, gap'] at covers
    exact ⟨rfl, by simpa using covers, placed.2, all.2⟩

/-- The place of a rule is all that is read for it. -/
theorem scan_marks : Rule.scan.Marks span := by
  refine .or_else (.spanned ?_) (.spanned ?_)
  · refine .bind Ident.scan_finds fun _ _ _ => .bind (.exactly _) fun _ _ _ => ?_
    refine .bind blanks_ensures fun _ _ _ => .bind Ident.scan_finds.many1 fun _ _ _ => ?_
    exact .bind (.exactly _) fun _ _ _ => .bind blanks_ensures fun _ _ _ => .pure fun _ => rfl
  · refine .bind Ident.scan_finds fun _ _ _ => .bind (.exactly _) fun _ _ _ => ?_
    refine .bind blanks_ensures fun _ _ _ => .bind Part.scan_finds.many1 fun _ _ _ => ?_
    exact .bind (.exactly _) fun _ _ _ => .bind blanks_ensures fun _ _ _ => .pure fun _ => rfl

end Rule

theorem Grammar.scan_lays : Grammar.scan.Lays text fun spans grammar =>
    spans = [grammar.span] ∧ ∀ rule ∈ grammar.rules, rule.IsPlaced text :=
  .spanned <| .bind (.silent blanks_ensures) fun _ _ _ =>
    .bind (.many1 Rule.scan_lays) fun _ _ all => .pure fun _ _ => ⟨rfl, all.2⟩

/-- The rules of a grammar that is read from a text are in their places. -/
theorem Grammar.rules_placed_of_read {grammar : Grammar}
    (accepted : Grammar.read text = .ok grammar) : ∀ rule ∈ grammar.rules, rule.IsPlaced text := by
  have read := Grammar.readNamed_eq_ok_iff.mp accepted
  split at read
  · cases read
    exact List.forall_mem_nil _
  · obtain ⟨after, scanned, -⟩ := read
    obtain ⟨-, spans, -, -, placed⟩ := Grammar.scan_lays _ grammar after (.refl _) scanned
    exact placed

/-- The nodes of a grammar that is read from a text and has rules are where their spans say. The
span of the grammar is the whole text. Those of the rules follow on one another, from the first
character that is no blank to the end of the text. Each name, and each character of a class or of a
literal, with its backslash if it has one, is the piece of the text that its span says. The spans of
the nodes that a rule, a part, a class, a range or a literal is made of lie within its own, one
behind the other. -/
theorem spans_of_read {text : String} {grammar : Grammar}
    (accepted : Grammar.read text = .ok grammar) (some_rule : grammar.rules ≠ []) :
    grammar.IsPlaced text := by
  have read := Grammar.readNamed_eq_ok_iff.mp accepted
  split at read
  · rw [read] at some_rule
    exact absurd rfl some_rule
  · obtain ⟨after, scanned, ended⟩ := read
    rw [Grammar.scan, Scanner.run_spanned, Option.map_eq_some_iff] at scanned
    obtain ⟨⟨found, stop⟩, inner, same⟩ := scanned
    cases same
    rw [StateT.run_bind, Scanner.run_blanks, Option.bind_eq_bind, Option.bind_some,
      StateT.run_bind, Option.bind_eq_bind, Option.bind_eq_some_iff] at inner
    obtain ⟨⟨rules, last⟩, rules_scanned, same⟩ := inner
    cases same
    have begun := (Cursor.start text).before_behind_gap
    obtain ⟨onward, spans, -, -, placed⟩ :=
      Lays.many1 Rule.scan_lays _ rules last begun rules_scanned
    have stop_eq : last.offset = text.utf8ByteSize := by
      rw [← (begun.trans onward).at_end_iff, Cursor.atEnd, ended]
      rfl
    have tiles := Rule.scan_marks.many1 Rule.scan_finds rules_scanned
    rw [stop_eq] at tiles
    refine ⟨?_, ?_, placed⟩
    · rw [stop_eq]
      rfl
    · rwa [Cursor.behindGap, Cursor.start, Nat.zero_add] at tiles

/-- The two rules of the crowded text lie behind its first blank. -/
theorem spans_of_crowded : ∃ grammar, Grammar.read crowdedText = .ok grammar ∧
    grammar.rules.map Rule.span = [⟨1, 9⟩, ⟨9, 28⟩] ∧ grammar.IsPlaced crowdedText := by
  have scanned : (Grammar.scan.run (.start crowdedText)).map
      (fun found => (found.1.rules.map Rule.span, found.2.rest)) =
        some ([⟨1, 9⟩, ⟨9, 28⟩], []) := by
    cbv
  obtain ⟨⟨grammar, after⟩, found, shown⟩ := Option.map_eq_some_iff.mp scanned
  rw [Prod.mk.injEq] at shown
  have accepted : Grammar.read crowdedText = .ok grammar :=
    Grammar.read_of_scan (by decide) found shown.2
  have some_rule : grammar.rules ≠ [] := by
    intro empty
    rw [empty] at shown
    cases shown.1
  exact ⟨grammar, accepted, shown.1, spans_of_read accepted some_rule⟩

end TracedGrammar

import TracedGrammar.Proofs.Text.Cursor
import TracedGrammar.Text.Span

/-!
# Scanners

A scanner reads an item at a cursor, or fails. Scanners are built from texts and characters with
the operations of a monad, `<|>` for a second attempt at the same place, and `many` for as many
items as there are.

What is known about a scanner is put in three ways. `Ensures` says something about every item that
is scanned and the characters that were read for it. `Yields` and `Fails` say that on a given text
an item is scanned, or none. Each has one lemma for each way to build a scanner.
-/

namespace TracedGrammar

/-- A way of reading an item at a cursor. -/
abbrev Scanner := StateT Cursor Option

namespace Scanner

/-- Reads a text. -/
def exactly (text : String) : Scanner Unit := fun cursor =>
  (cursor.eatLiteral? text).map fun after => ((), after)

/-- Reads a character that is accepted. -/
def char (accepts : Char → Bool) : Scanner Char := fun cursor =>
  cursor.eatChar? accepts

/-- Reads an item that depends on the range it is read from. -/
def spanned (scan : Scanner (Span → α)) : Scanner α := do
  let start ← get
  let item ← scan
  let stop ← get
  return item ⟨start.offset, stop.offset⟩

/-- Reads items one after the other as long as there are any, and no more than a number of them. -/
def manyWithin (item : Scanner α) : Nat → Scanner (List α)
  | 0 => pure []
  | budget + 1 => do
      match ← optional item with
      | none => return []
      | some first => return first :: (← manyWithin item budget)

/-- Reads items one after the other as long as there are any. A text has no room for more items than
it has characters. -/
def many (item : Scanner α) : Scanner (List α) := do
  let cursor ← get
  manyWithin item cursor.rest.length

/-- Reads one item, and more as long as there are any. -/
def many1 (item : Scanner α) : Scanner (List α) := do
  let first ← item
  let others ← many item
  return first :: others

variable {α β : Type} {scan other : Scanner α} {next : α → Scanner β} {cursor : Cursor}

theorem run_exactly (text : String) (cursor : Cursor) : (exactly text).run cursor =
    (cursor.eatLiteral? text).map fun after => ((), after) :=
  rfl

theorem run_char (accepts : Char → Bool) (cursor : Cursor) :
    (char accepts).run cursor = cursor.eatChar? accepts :=
  rfl

theorem run_or_else : (scan <|> other).run cursor = (scan.run cursor <|> other.run cursor) :=
  rfl

theorem run_optional : (optional scan).run cursor =
    match scan.run cursor with
    | some (item, after) => some (some item, after)
    | none => some (none, cursor) := by
  rw [optional, run_or_else, StateT.run_map]
  cases scan.run cursor <;> rfl

theorem run_spanned {scan : Scanner (Span → α)} : (spanned scan).run cursor =
    (scan.run cursor).map fun (item, after) => (item ⟨cursor.offset, after.offset⟩, after) := by
  simp only [spanned, StateT.run_bind, StateT.run_get, StateT.run_pure, Option.pure_def,
    Option.bind_eq_bind, Option.bind_some]
  cases scan.run cursor <;> rfl

section

variable {after : Cursor} {item : α} {last : β}

theorem run_exactly_eq_some {text : String} {read : Unit} :
    (exactly text).run cursor = some (read, after) ↔ cursor.Reads text.toList after := by
  rw [run_exactly, ← Cursor.eat_literal_eq_some_iff]
  simp [Option.map_eq_some_iff]

theorem run_bind_eq_some : (scan >>= next).run cursor = some (last, after) ↔
    ∃ item middle, scan.run cursor = some (item, middle) ∧
      (next item).run middle = some (last, after) := by
  rw [StateT.run_bind, Option.bind_eq_bind, Option.bind_eq_some_iff, Prod.exists]

theorem run_or_else_eq_some : (scan <|> other).run cursor = some (item, after) ↔
    scan.run cursor = some (item, after) ∨
      scan.run cursor = none ∧ other.run cursor = some (item, after) := by
  rw [run_or_else]
  cases scan.run cursor <;> simp

theorem run_optional_eq_some {item? : Option α} :
    (optional scan).run cursor = some (item?, after) ↔
      (∃ item, scan.run cursor = some (item, after) ∧ some item = item?) ∨
        scan.run cursor = none ∧ none = item? ∧ cursor = after := by
  rw [run_optional]
  rcases scan.run cursor with _ | ⟨found, stop⟩
  · simp
  · simp [and_comm]

theorem run_spanned_eq_some {scan : Scanner (Span → α)} :
    (spanned scan).run cursor = some (item, after) ↔
      ∃ found, scan.run cursor = some (found, after) ∧
        found ⟨cursor.offset, after.offset⟩ = item := by
  rw [run_spanned]
  rcases scan.run cursor with _ | ⟨found, stop⟩
  · simp
  · simp only [Option.map_some, Option.some.injEq, Prod.mk.injEq]
    constructor
    · rintro ⟨rfl, rfl⟩
      exact ⟨found, ⟨rfl, rfl⟩, rfl⟩
    · rintro ⟨_, ⟨rfl, rfl⟩, rfl⟩
      exact ⟨rfl, rfl⟩

end

/-! ### What every item satisfies -/

/-- Whatever is scanned, the characters read for it and the item are related. -/
def Ensures (scan : Scanner α) (post : List Char → α → Prop) : Prop :=
  ∀ cursor item after, scan.run cursor = some (item, after) →
    ∃ chars, cursor.Reads chars after ∧ post chars item

namespace Ensures

variable {post : List Char → α → Prop} {post' : List Char → β → Prop}

theorem mono {weaker : List Char → α → Prop} (h : scan.Ensures post)
    (implies : ∀ chars item, post chars item → weaker chars item) : scan.Ensures weaker := by
  intro cursor item after scanned
  obtain ⟨chars, reads, now⟩ := h cursor item after scanned
  exact ⟨chars, reads, implies chars item now⟩

theorem pure {item : α} (h : post [] item) : Ensures (Pure.pure item) post := by
  intro cursor item after scanned
  cases scanned
  exact ⟨[], .refl cursor, h⟩

theorem bind (h : scan.Ensures post) (onward : ∀ chars item, post chars item →
    (next item).Ensures fun more => post' (chars ++ more)) : (scan >>= next).Ensures post' := by
  intro cursor last after scanned
  obtain ⟨item, middle, first, second⟩ := run_bind_eq_some.mp scanned
  obtain ⟨chars, reads, now⟩ := h cursor item middle first
  obtain ⟨more, further, done⟩ := onward chars item now middle last after second
  exact ⟨chars ++ more, reads.trans further, done⟩

theorem map {convert : α → β} (h : scan.Ensures fun chars item => post' chars (convert item)) :
    (convert <$> scan).Ensures post' := by
  rw [map_eq_pure_bind]
  refine .bind h fun chars item now => .pure ?_
  rwa [List.append_nil]

theorem or_else (h : scan.Ensures post) (h' : other.Ensures post) :
    (scan <|> other).Ensures post := by
  intro cursor item after scanned
  rcases run_or_else_eq_some.mp scanned with first | ⟨-, second⟩
  · exact h cursor item after first
  · exact h' cursor item after second

theorem optional (h : scan.Ensures post) :
    (optional scan).Ensures fun chars item? => ∀ item, item? = some item → post chars item := by
  intro cursor item? after scanned
  rcases run_optional_eq_some.mp scanned with ⟨found, first, rfl⟩ | ⟨-, rfl, rfl⟩
  · obtain ⟨chars, reads, now⟩ := h cursor found after first
    exact ⟨chars, reads, fun item same => by cases same; exact now⟩
  · exact ⟨[], .refl cursor, fun item none_eq => by cases none_eq⟩

theorem spanned {scan : Scanner (Span → α)}
    (h : scan.Ensures fun chars item => ∀ span, post chars (item span)) :
    (spanned scan).Ensures post := by
  intro cursor item after scanned
  obtain ⟨found, first, rfl⟩ := run_spanned_eq_some.mp scanned
  obtain ⟨chars, reads, now⟩ := h cursor found after first
  exact ⟨chars, reads, now _⟩

theorem exactly (text : String) : (exactly text).Ensures fun chars _ => chars = text.toList := by
  intro cursor item after scanned
  exact ⟨_, run_exactly_eq_some.mp scanned, rfl⟩

theorem char (accepts : Char → Bool) :
    (char accepts).Ensures fun chars char => accepts char = true ∧ chars = [char] := by
  intro cursor item after scanned
  obtain ⟨accepted, reads⟩ := Cursor.eat_char_eq_some_iff.mp scanned
  exact ⟨_, reads, accepted, rfl⟩

end Ensures

/-- The scanner reads a character at least. -/
def Eats (scan : Scanner α) : Prop :=
  scan.Ensures fun chars _ => chars ≠ []

theorem Eats.length_lt {item : α} {after : Cursor} (h : scan.Eats)
    (scanned : scan.run cursor = some (item, after)) :
    after.rest.length < cursor.rest.length := by
  obtain ⟨chars, reads, some_read⟩ := h cursor item after scanned
  rw [reads.rest_eq, List.length_append]
  exact Nat.lt_add_of_pos_left (List.length_pos_of_ne_nil some_read)

theorem Eats.offset_ne {item : α} {after : Cursor} (h : scan.Eats)
    (scanned : scan.run cursor = some (item, after)) : after.offset ≠ cursor.offset := by
  obtain ⟨chars, reads, some_read⟩ := h cursor item after scanned
  intro still
  rw [reads.offset_eq, Nat.add_eq_left, String.utf8Len_eq_zero] at still
  exact some_read still

/-! ### As many as there are -/

theorem run_many_within (budget : Nat) : (manyWithin scan (budget + 1)).run cursor =
    match scan.run cursor with
    | none => some ([], cursor)
    | some (first, after) => ((manyWithin scan budget).run after).map fun (others, last) =>
        (first :: others, last) := by
  rw [manyWithin, StateT.run_bind, run_optional]
  rcases scan.run cursor with _ | ⟨first, after⟩
  · rfl
  · simp only [Option.bind_eq_bind, Option.bind_some, StateT.run_bind]
    cases (manyWithin scan budget).run after <;> rfl

theorem run_many_within_eq_some {budget : Nat} {items : List α} {after : Cursor} :
    (manyWithin scan (budget + 1)).run cursor = some (items, after) ↔
      scan.run cursor = none ∧ [] = items ∧ cursor = after ∨
        ∃ first middle others, scan.run cursor = some (first, middle) ∧
          (manyWithin scan budget).run middle = some (others, after) ∧ first :: others = items := by
  rw [run_many_within]
  rcases scan.run cursor with _ | ⟨first, middle⟩
  · simp
  · simp [Option.map_eq_some_iff, and_comm]

theorem many_within_at_end (eats : scan.Eats) (ended : cursor.rest = []) (budget : Nat) :
    (manyWithin scan budget).run cursor = some ([], cursor) := by
  cases budget with
  | zero => rfl
  | succ budget =>
      rw [run_many_within]
      cases scanned : scan.run cursor with
      | none => rfl
      | some found =>
          have fewer := eats.length_lt scanned
          rw [ended] at fewer
          cases fewer

/-- The number of items that are allowed for does not matter if the text has no room for more. -/
theorem many_within_eq (eats : scan.Eats) {budget budget' : Nat}
    (room : cursor.rest.length ≤ budget) (room' : cursor.rest.length ≤ budget') :
    (manyWithin scan budget).run cursor = (manyWithin scan budget').run cursor := by
  induction budget generalizing budget' cursor with
  | zero =>
      have ended := List.eq_nil_of_length_eq_zero (Nat.le_zero.mp room)
      rw [many_within_at_end eats ended, many_within_at_end eats ended]
  | succ budget ih =>
      cases budget' with
      | zero =>
          have ended := List.eq_nil_of_length_eq_zero (Nat.le_zero.mp room')
          rw [many_within_at_end eats ended, many_within_at_end eats ended]
      | succ budget' =>
          rw [run_many_within, run_many_within]
          cases scanned : scan.run cursor with
          | none => rfl
          | some found =>
              have fewer := eats.length_lt scanned
              have others := @ih found.2 budget' (by omega) (by omega)
              simp only [others]

/-- Reading many items is reading one, and then many. -/
theorem run_many (eats : scan.Eats) (cursor : Cursor) : (many scan).run cursor =
    match scan.run cursor with
    | none => some ([], cursor)
    | some (first, after) => ((many scan).run after).map fun (others, last) =>
        (first :: others, last) := by
  have within : ∀ cursor, (many scan).run cursor =
      (manyWithin scan cursor.rest.length).run cursor := fun _ => rfl
  rw [within, many_within_eq eats (Nat.le_refl _) (Nat.le_succ _), run_many_within]
  cases scanned : scan.run cursor with
  | none => rfl
  | some found =>
      have fewer := eats.length_lt scanned
      simp only
      rw [within, many_within_eq eats (by omega) (Nat.le_refl _)]

theorem run_many_eq_some (eats : scan.Eats) {items : List α} {after : Cursor} :
    (many scan).run cursor = some (items, after) ↔
      scan.run cursor = none ∧ [] = items ∧ cursor = after ∨
        ∃ first middle others, scan.run cursor = some (first, middle) ∧
          (many scan).run middle = some (others, after) ∧ first :: others = items := by
  rw [run_many eats]
  rcases scan.run cursor with _ | ⟨first, middle⟩
  · simp
  · simp [Option.map_eq_some_iff, and_comm]

/-- Many items are read piece by piece. -/
theorem Ensures.many {post : List Char → α → Prop} (h : scan.Ensures post) :
    (many scan).Ensures fun chars items =>
      ∃ pieces : List (List Char), chars = pieces.flatten ∧ List.Forall₂ post pieces items := by
  suffices ∀ budget, (manyWithin scan budget).Ensures fun chars items =>
      ∃ pieces : List (List Char), chars = pieces.flatten ∧ List.Forall₂ post pieces items from
    fun cursor => this cursor.rest.length cursor
  intro budget
  induction budget with
  | zero => exact .pure ⟨[], rfl, .nil⟩
  | succ budget ih =>
      intro cursor items after scanned
      rcases run_many_within_eq_some.mp scanned with
        ⟨-, rfl, rfl⟩ | ⟨first, middle, others, found, rest, rfl⟩
      · exact ⟨[], .refl cursor, [], rfl, .nil⟩
      · obtain ⟨chars, reads, now⟩ := h cursor first middle found
        obtain ⟨more, further, pieces, rfl, all⟩ := ih middle others after rest
        exact ⟨_, reads.trans further, chars :: pieces, rfl, .cons now all⟩

/-! ### What is scanned from a given text -/

/-- From the characters an item is scanned that is good, and the rest is left. -/
def Yields (scan : Scanner α) (chars : List Char) (good : α → Prop) (rest : List Char) : Prop :=
  ∀ offset, ∃ item stop, scan.run ⟨offset, chars⟩ = some (item, ⟨stop, rest⟩) ∧ good item

/-- From the characters nothing is scanned. -/
def Fails (scan : Scanner α) (chars : List Char) : Prop :=
  ∀ offset, scan.run ⟨offset, chars⟩ = none

variable {chars middle rest : List Char} {good : α → Prop} {good' : β → Prop}

namespace Yields

theorem mono {better : α → Prop} (h : scan.Yields chars good rest)
    (implies : ∀ item, good item → better item) : scan.Yields chars better rest := by
  intro offset
  obtain ⟨item, stop, scanned, now⟩ := h offset
  exact ⟨item, stop, scanned, implies item now⟩

theorem pure {item : α} (h : good item) : Yields (Pure.pure item) chars good chars :=
  fun offset => ⟨item, offset, rfl, h⟩

theorem bind (h : scan.Yields chars good middle)
    (onward : ∀ item, good item → (next item).Yields middle good' rest) :
    (scan >>= next).Yields chars good' rest := by
  intro offset
  obtain ⟨item, stop, scanned, now⟩ := h offset
  obtain ⟨last, stop', scanned', done⟩ := onward item now stop
  exact ⟨last, stop', by rw [StateT.run_bind, scanned]; exact scanned', done⟩

theorem first (h : scan.Yields chars good rest) : (scan <|> other).Yields chars good rest := by
  intro offset
  obtain ⟨item, stop, scanned, now⟩ := h offset
  exact ⟨item, stop, by rw [run_or_else, scanned]; rfl, now⟩

theorem second (h : scan.Fails chars) (h' : other.Yields chars good rest) :
    (scan <|> other).Yields chars good rest := by
  intro offset
  obtain ⟨item, stop, scanned, now⟩ := h' offset
  exact ⟨item, stop, by rw [run_or_else, h offset, scanned]; rfl, now⟩

theorem optional_some (h : scan.Yields chars good rest) :
    (optional scan).Yields chars (fun item? => ∃ item, item? = some item ∧ good item) rest := by
  intro offset
  obtain ⟨item, stop, scanned, now⟩ := h offset
  exact ⟨some item, stop, by rw [run_optional, scanned], item, rfl, now⟩

theorem optional_none (h : scan.Fails chars) :
    (optional scan).Yields chars (· = none) chars :=
  fun offset => ⟨none, offset, by rw [run_optional, h offset], rfl⟩

theorem spanned {scan : Scanner (Span → α)}
    (h : scan.Yields chars (fun item => ∀ span, good (item span)) rest) :
    (spanned scan).Yields chars good rest := by
  intro offset
  obtain ⟨item, stop, scanned, now⟩ := h offset
  exact ⟨_, stop, by rw [run_spanned, scanned]; rfl, now _⟩

theorem exactly (text : String) :
    (exactly text).Yields (text.toList ++ rest) (fun _ => True) rest := by
  intro offset
  have read : (⟨offset, text.toList ++ rest⟩ : Cursor).Reads text.toList
      ⟨offset + String.utf8Len text.toList, rest⟩ := ⟨rfl, rfl⟩
  exact ⟨(), _, run_exactly_eq_some.mpr read, trivial⟩

theorem char {accepts : Char → Bool} {letter : Char} (accepted : accepts letter = true) :
    (char accepts).Yields (letter :: rest) (· = letter) rest := by
  intro offset
  have read : (⟨offset, letter :: rest⟩ : Cursor).Reads [letter]
      ⟨offset + String.utf8Len [letter], rest⟩ := ⟨rfl, rfl⟩
  exact ⟨letter, _, Cursor.eat_char_eq_some_iff.mpr ⟨accepted, read⟩, rfl⟩

end Yields

namespace Fails

theorem bind (h : scan.Fails chars) : (scan >>= next).Fails chars := by
  intro offset
  rw [StateT.run_bind, h offset]
  rfl

theorem after (h : scan.Yields chars good middle)
    (onward : ∀ item, good item → (next item).Fails middle) : (scan >>= next).Fails chars := by
  intro offset
  obtain ⟨item, stop, scanned, now⟩ := h offset
  rw [StateT.run_bind, scanned]
  exact onward item now stop

theorem or_else (h : scan.Fails chars) (h' : other.Fails chars) : (scan <|> other).Fails chars := by
  intro offset
  rw [run_or_else, h offset, h' offset]
  rfl

theorem spanned {scan : Scanner (Span → α)} (h : scan.Fails chars) :
    (spanned scan).Fails chars := by
  intro offset
  rw [run_spanned, h offset]
  rfl

theorem exactly {text : String} (h : ¬ text.toList <+: chars) : (exactly text).Fails chars :=
  fun _ => Option.map_eq_none_iff.mpr (Cursor.eat_literal_eq_none_iff.mpr h)

/-- A text of one character is not read where another one comes next. -/
theorem exactly_one (text : String) (char : Char) (one : text.toList = [char])
    (other : chars.head? ≠ some char) : (Scanner.exactly text).Fails chars := by
  refine .exactly fun ⟨rest, read⟩ => other ?_
  rw [← read, one]
  rfl

theorem char {accepts : Char → Bool} (h : ∀ char ∈ chars.head?, accepts char = false) :
    (char accepts).Fails chars :=
  fun _ => Cursor.eat_char_eq_none_iff.mpr h

end Fails

/-- Many items are scanned from a text that spells them one after the other, if each of them is
scanned and leaves the text of those after it. -/
theorem Yields.many (same : α → β) (spelled : List α → List Char) (possible : List α → Prop)
    (eats : scan.Eats)
    (step : ∀ item items, possible (item :: items) → possible items ∧
      scan.Yields (spelled (item :: items)) (same · = same item) (spelled items))
    (ends : scan.Fails (spelled [])) {items : List α} (h : possible items) :
    (Scanner.many scan).Yields (spelled items) (fun again => again.map same = items.map same)
      (spelled []) := by
  induction items with
  | nil => exact fun offset => ⟨[], offset, by rw [run_many eats, ends offset], rfl⟩
  | cons item items ih =>
      obtain ⟨others, first⟩ := step item items h
      intro offset
      obtain ⟨found, stop, scanned, found_same⟩ := first offset
      obtain ⟨again, stop', scanned', again_same⟩ := ih others stop
      refine ⟨found :: again, stop', ?_, by simp [found_same, again_same]⟩
      rw [run_many eats, scanned]
      simp only [scanned']
      rfl

/-- If what is scanned is not empty, one item at least is scanned. -/
theorem Yields.many1 {good : List α → Prop} (eats : scan.Eats)
    (h : (Scanner.many scan).Yields chars good rest) (nonempty : ¬ good []) :
    (Scanner.many1 scan).Yields chars good rest := by
  intro offset
  obtain ⟨items, stop, scanned, now⟩ := h offset
  rw [run_many eats] at scanned
  rw [Scanner.many1, StateT.run_bind]
  rcases first : scan.run ⟨offset, chars⟩ with _ | ⟨item, after⟩
  · rw [first] at scanned
    cases scanned
    exact absurd now nonempty
  · rw [first] at scanned
    obtain ⟨⟨others, last⟩, more, same⟩ := Option.map_eq_some_iff.mp scanned
    cases same
    refine ⟨item :: others, stop, ?_, now⟩
    simp only [Option.bind_eq_bind, Option.bind_some, StateT.run_bind, more]
    rfl

/-- Characters are read as long as they are accepted. -/
theorem run_many_char (accepts : Char → Bool) (cursor : Cursor) :
    (many (char accepts)).run cursor =
      some (cursor.rest.takeWhile accepts,
        ⟨cursor.offset + String.utf8Len (cursor.rest.takeWhile accepts),
          cursor.rest.dropWhile accepts⟩) := by
  have eats : (char accepts).Eats :=
    (Ensures.char accepts).mono fun chars item read => by simp [read.2]
  obtain ⟨offset, chars⟩ := cursor
  induction chars generalizing offset with
  | nil => rw [run_many eats]; rfl
  | cons first chars ih =>
      rw [run_many eats]
      by_cases accepted : accepts first = true
      · have read : (char accepts).run ⟨offset, first :: chars⟩ =
            some (first, ⟨offset + first.utf8Size, chars⟩) := by
          simp [run_char, Cursor.eatChar?, accepted]
        simp only [read, ih, List.takeWhile_cons, List.dropWhile_cons, accepted, if_true,
          Option.map_some, String.utf8Len_cons, Option.some.injEq, Prod.mk.injEq,
          Cursor.mk.injEq, true_and, and_true]
        omega
      · have missed : (char accepts).run ⟨offset, first :: chars⟩ = none := by
          simp [run_char, Cursor.eatChar?, accepted]
        simp [missed, accepted]

/-- Characters that are accepted are read up to one that is not. -/
theorem Yields.many_char {accepts : Char → Bool} {chars rest : List Char}
    (inside : ∀ char ∈ chars, accepts char = true)
    (ends : ∀ char ∈ rest.head?, accepts char = false) :
    (Scanner.many (Scanner.char accepts)).Yields (chars ++ rest) (· = chars) rest := by
  intro offset
  have none_more : rest.takeWhile accepts = [] ∧ rest.dropWhile accepts = rest := by
    cases rest with
    | nil => exact ⟨rfl, rfl⟩
    | cons first rest => simp [ends first rfl]
  have read : (chars ++ rest).takeWhile accepts = chars := by
    rw [List.takeWhile_append_of_pos inside, none_more.1, List.append_nil]
  have left : (chars ++ rest).dropWhile accepts = rest := by
    rw [List.dropWhile_append_of_pos inside, none_more.2]
  refine ⟨chars, offset + String.utf8Len chars, ?_, rfl⟩
  rw [run_many_char]
  simp only [read, left]

end Scanner

end TracedGrammar

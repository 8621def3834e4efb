import Mathlib.Data.String.Basic
import TracedGrammar.Text.Cursor

/-!
# Cursors along a text

`Cursor.Reads earlier chars later` says that the characters lie between two cursors, so that the
later one is reached by reading them. Cursors of one match are related by it whatever happened in
between: matching reads on, and a failed attempt goes back to a cursor that was saved before.

Offsets count bytes, so a piece of text is measured by `String.utf8Len`.
-/

namespace TracedGrammar

open String (utf8Len)

theorem takeBytes_append (chars rest : List Char) :
    takeBytes (utf8Len chars) (chars ++ rest) = chars := by
  induction chars with
  | nil =>
      cases rest with
      | nil => rfl
      | cons char rest => simp [takeBytes, char.utf8Size_pos.ne']
  | cons char chars ih =>
      have fits : char.utf8Size ≤ utf8Len chars + char.utf8Size := Nat.le_add_left ..
      simp [takeBytes, fits, ih]

theorem dropBytes_append (chars rest : List Char) :
    dropBytes (utf8Len chars) (chars ++ rest) = rest := by
  have split := takeBytes_append_dropBytes (utf8Len chars) (chars ++ rest)
  rw [takeBytes_append] at split
  exact List.append_cancel_left split

namespace Cursor

/-- The characters between two cursors, in whole. -/
structure Reads (earlier : Cursor) (chars : List Char) (later : Cursor) : Prop where
  rest_eq : earlier.rest = chars ++ later.rest
  offset_eq : later.offset = earlier.offset + utf8Len chars

/-- The later cursor is reached by reading on from the earlier one. -/
def Before (earlier later : Cursor) : Prop :=
  ∃ chars, earlier.Reads chars later

theorem Reads.refl (cursor : Cursor) : cursor.Reads [] cursor :=
  ⟨rfl, rfl⟩

theorem Reads.trans {first second third : Cursor} {chars more : List Char}
    (h : first.Reads chars second) (h' : second.Reads more third) :
    first.Reads (chars ++ more) third := by
  constructor
  · rw [h.rest_eq, h'.rest_eq, List.append_assoc]
  · rw [h'.offset_eq, h.offset_eq, String.utf8Len_append, Nat.add_assoc]

/-- The text between two cursors is the text that leads from one to the other. -/
theorem Reads.textTo_eq {earlier later : Cursor} {chars : List Char}
    (h : earlier.Reads chars later) : earlier.textTo later = String.ofList chars := by
  rw [textTo, h.offset_eq, h.rest_eq, Nat.add_sub_cancel_left, takeBytes_append]

theorem Before.refl (cursor : Cursor) : cursor.Before cursor :=
  ⟨[], .refl cursor⟩

theorem Before.trans {first second third : Cursor} (h : first.Before second)
    (h' : second.Before third) : first.Before third := by
  obtain ⟨chars, h⟩ := h
  obtain ⟨more, h'⟩ := h'
  exact ⟨chars ++ more, h.trans h'⟩

theorem Before.length_le {earlier later : Cursor} (h : earlier.Before later) :
    later.rest.length ≤ earlier.rest.length := by
  obtain ⟨chars, h⟩ := h
  rw [h.rest_eq, List.length_append]
  exact Nat.le_add_left ..

/-- A cursor at another offset has fewer characters after it. -/
theorem Before.length_lt {earlier later : Cursor} (h : earlier.Before later)
    (moved : later.offset ≠ earlier.offset) : later.rest.length < earlier.rest.length := by
  obtain ⟨chars, h⟩ := h
  cases chars with
  | nil => exact absurd h.offset_eq moved
  | cons char chars =>
      rw [h.rest_eq, List.length_append, List.length_cons]
      omega

/-- A literal is eaten by reading its characters. -/
theorem eat_literal_eq_some_iff {cursor after : Cursor} {literal : String} :
    cursor.eatLiteral? literal = some after ↔ cursor.Reads literal.toList after := by
  constructor
  · intro h
    obtain ⟨rest, found, rfl⟩ := Option.map_eq_some_iff.mp h
    exact ⟨dropLiteral?_eq_some_iff.mp found, by rw [String.utf8Len_toList]⟩
  · rintro ⟨rest_eq, offset_eq⟩
    rw [String.utf8Len_toList] at offset_eq
    rw [eatLiteral?, dropLiteral?_eq_some_iff.mpr rest_eq, Option.map_some, ← offset_eq]

theorem eat_literal_eq_none_iff {cursor : Cursor} {literal : String} :
    cursor.eatLiteral? literal = none ↔ ¬ literal.toList <+: cursor.rest := by
  rw [eatLiteral?, Option.map_eq_none_iff, Option.eq_none_iff_forall_ne_some, ← not_exists]
  refine not_congr (exists_congr fun rest => ?_)
  rw [dropLiteral?_eq_some_iff, eq_comm]

/-- A character is eaten by reading it, if it is accepted. -/
theorem eat_char_eq_some_iff {cursor after : Cursor} {accepts : Char → Bool} {char : Char} :
    cursor.eatChar? accepts = some (char, after) ↔
      accepts char = true ∧ cursor.Reads [char] after := by
  constructor
  · intro h
    unfold eatChar? at h
    split at h
    · cases h
    · rename_i next rest left
      split at h
      · rename_i accepted
        cases h
        exact ⟨accepted, left, by simp⟩
      · cases h
  · rintro ⟨accepted, rest_eq, offset_eq⟩
    have size_eq : String.utf8Len [char] = char.utf8Size := by simp
    rw [eatChar?, rest_eq]
    simp only [List.singleton_append, accepted, if_true]
    rw [← size_eq, ← offset_eq]

theorem eat_char_eq_none_iff {cursor : Cursor} {accepts : Char → Bool} :
    cursor.eatChar? accepts = none ↔ ∀ char ∈ cursor.rest.head?, accepts char = false := by
  unfold eatChar?
  split
  · rename_i ended
    simp [ended]
  · rename_i next rest left
    simp [left]

/-- A cursor of a text is at the end of it when all bytes are before it. -/
theorem Before.at_end_iff {text : String} {cursor : Cursor} (h : (start text).Before cursor) :
    cursor.atEnd ↔ cursor.offset = text.utf8ByteSize := by
  obtain ⟨chars, h⟩ := h
  have whole : text.utf8ByteSize = utf8Len chars + utf8Len cursor.rest := by
    rw [← String.utf8Len_toList, ← String.utf8Len_append, ← h.rest_eq]
    rfl
  have read : cursor.offset = utf8Len chars := by simpa [start] using h.offset_eq
  rw [atEnd, List.isEmpty_iff, whole, read]
  constructor
  · intro ended
    simp [ended]
  · intro same
    exact String.utf8Len_eq_zero.mp (by omega)

end Cursor

end TracedGrammar

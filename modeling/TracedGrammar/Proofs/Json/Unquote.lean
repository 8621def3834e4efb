import Mathlib.Tactic.SplitIfs
import TracedGrammar.Json.Text

/-!
# Unquoting undoes quoting

`Json.unquote?` reads the text back that `Json.quote` wrote, character by character: each one is
written by a short escape, by its number in hexadecimal digits, or as it is.
-/

namespace TracedGrammar.Json

theorem hex_value_hexDigit : ∀ value, value < 16 → hexValue? (hexDigit value) = some value := by
  decide

/-- A short escape stands for the character it was written for. -/
theorem short_escape_reads {char letter : Char} (h : shortEscape? char = some letter) :
    ofShortEscape? letter = some char ∧ letter ≠ 'u' := by
  have numbered : ∀ number, char.toNat = number → char = Char.ofNat number := by
    intro number same
    rw [← same, Char.ofNat_toNat]
  unfold shortEscape? at h
  split_ifs at h with quote slash line back tab backspace feed <;> cases h
  · subst quote; decide
  · subst slash; decide
  · subst line; decide
  · subst back; decide
  · subst tab; decide
  · rw [numbered _ backspace]; decide
  · rw [numbered _ feed]; decide

/-- What is written for a character is read as that character. -/
theorem unquote_chars_quoteChar (char : Char) (rest : List Char) :
    unquoteChars? (quoteChar char ++ rest) = (unquoteChars? rest).map (char :: ·) := by
  unfold quoteChar
  split
  · rename_i letter short
    obtain ⟨read, not_numbered⟩ := short_escape_reads short
    simp only [List.cons_append, List.nil_append]
    rw [unquoteChars?]
    · rw [read]
      cases unquoteChars? rest <;> rfl
    · rintro a b c d _ rfl
      exact absurd rfl not_numbered
  · rename_i plain
    split
    · rename_i control
      have high := hex_value_hexDigit (char.toNat / 16) (by omega)
      have low := hex_value_hexDigit (char.toNat % 16) (by omega)
      have zero : hexValue? '0' = some 0 := rfl
      have same : Char.ofNat (char.toNat / 16 * 16 + char.toNat % 16) = char := by
        rw [Nat.div_add_mod', Char.ofNat_toNat]
      simp only [List.cons_append, List.nil_append, unquoteChars?, high, low, zero]
      cases unquoteChars? rest with
      | none => rfl
      | some chars => simp [same]
    · rename_i printed
      have not_quote : char ≠ '"' := by
        rintro rfl
        exact absurd plain (by decide)
      have not_escape : char ≠ '\\' := by
        rintro rfl
        exact absurd plain (by decide)
      rw [List.singleton_append, unquoteChars?]
      · simp [not_quote, not_escape, printed]
      · intro same
        exact absurd same not_quote
      · exact fun _ _ _ _ _ same => absurd same not_escape
      · exact fun _ _ same => absurd same not_escape

/-- Unquoting gives the text back that was quoted. -/
theorem unquote_quote (text : String) : unquote? (quote text) = some text := by
  have read : ∀ chars, unquoteChars? (chars.flatMap quoteChar ++ ['"']) = some chars := by
    intro chars
    induction chars with
    | nil => rfl
    | cons char chars ih =>
        rw [List.flatMap_cons, List.append_assoc, unquote_chars_quoteChar, ih]
        rfl
  rw [unquote?, quote, String.toList_ofList]
  simp only [read, Option.map_some, String.ofList_toList]

end TracedGrammar.Json

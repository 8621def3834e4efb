import Mathlib.Data.List.Forall2
import TracedGrammar.Schema.Report

/-!
# The width of schema reports

A report with a width limit has the lines of the report without one, each cut on its own: a line
that fits is written as it is, a longer one ends in three dots. The dots need room themselves, so
the limit is kept by every line as soon as it is three or more, and below that only by reports that
have nothing to cut.

The theorem to read first is `width_of_report`.
-/

namespace TracedGrammar

namespace SchemaReport

/-- Lines as a text. -/
def text (lines : List String) : String :=
  .join (lines.map (· ++ "\n"))

/-- How a line is written within a width: as it is if it fits, else as the first of its characters
with three dots behind them, as many characters as leave room for the dots. -/
structure IsCut (width : Nat) (line written : String) : Prop where
  fits : line.length ≤ width → written = line
  longer : width < line.length → ∃ kept, kept <+: line.toList ∧ kept.length = width - 3 ∧
    written = String.ofList kept ++ "..."

/-- No line of a text is longer than a width. -/
def KeepsTo (width : Nat) (text : String) : Prop :=
  ∀ line ∈ text.toList.splitOn '\n', line.length ≤ width

variable {width : Nat} {line written : String}

theorem isCut_cut (width : Nat) (line : String) : IsCut width line (cut (some width) line) := by
  refine ⟨fun fits => if_neg (Nat.not_lt.mpr fits), fun longer => ?_⟩
  refine ⟨line.toList.take (width - 3), List.take_prefix _ _, ?_, if_pos longer⟩
  rw [List.length_take, String.length_toList]
  omega

/-- A cut line keeps to the width if the dots have room in it. -/
theorem IsCut.length_le (h : IsCut width line written) (room : 3 ≤ width ∨ line.length ≤ width) :
    written.length ≤ width := by
  by_cases fits : line.length ≤ width
  · rwa [h.fits fits]
  · obtain ⟨kept, -, length_eq, rfl⟩ := h.longer (Nat.lt_of_not_le fits)
    have dots : "...".length = 3 := rfl
    rw [String.length_append, String.length_ofList, length_eq, dots]
    omega

/-- The pieces of a list between marks are no longer than the list. -/
theorem length_le_of_mem_splitOn {α : Type} [BEq α] {mark : α} {items piece : List α}
    (among : piece ∈ items.splitOn mark) : piece.length ≤ items.length := by
  induction items generalizing piece with
  | nil =>
      rw [List.splitOn_nil] at among
      cases List.mem_singleton.mp among
      exact Nat.le_refl _
  | cons item items ih =>
      rw [List.splitOn_cons_eq_if_modifyHead] at among
      split at among
      · rcases List.mem_cons.mp among with rfl | among
        · exact Nat.zero_le _
        · exact Nat.le_succ_of_le (ih among)
      · obtain ⟨first, rest, pieces_eq⟩ :=
          List.exists_cons_of_ne_nil (List.splitOn_ne_nil mark items)
        rw [pieces_eq, List.modifyHead_cons] at among
        rw [pieces_eq] at ih
        rcases List.mem_cons.mp among with rfl | among
        · exact Nat.succ_le_succ (ih List.mem_cons_self)
        · exact Nat.le_succ_of_le (ih (.tail _ among))

/-- The lines of a text are the pieces of the lines that it was made from, and an empty one. -/
theorem splitOn_text (lines : List String) :
    (text lines).toList.splitOn '\n' = lines.flatMap (·.toList.splitOn '\n') ++ [[]] := by
  induction lines with
  | nil => simp [text]
  | cons line lines ih =>
      have first : (text (line :: lines)).toList = line.toList ++ '\n' :: (text lines).toList := by
        simp [text, String.join_cons]
      rw [first, List.splitOn_append_cons_self, ih, List.flatMap_cons, List.append_assoc]

theorem keepsTo_text {lines : List String} (each : ∀ line ∈ lines, line.length ≤ width) :
    KeepsTo width (text lines) := by
  intro piece among
  rw [splitOn_text] at among
  rcases List.mem_append.mp among with among | last
  · obtain ⟨line, listed, among⟩ := List.mem_flatMap.mp among
    have short := length_le_of_mem_splitOn among
    rw [String.length_toList] at short
    exact Nat.le_trans short (each line listed)
  · cases List.mem_singleton.mp last
    exact Nat.zero_le _

/-- A line that is cut where the dots have no room does not keep to the width. -/
theorem fits_or_room {lines : List String}
    (h : KeepsTo width (text (lines.map (cut (some width))))) :
    3 ≤ width ∨ ∀ line ∈ lines, line.length ≤ width := by
  refine or_iff_not_imp_left.mpr fun narrow line listed => Nat.le_of_not_lt fun longer => ?_
  obtain ⟨kept, -, length_eq, cut_eq⟩ := (isCut_cut width line).longer longer
  have none_kept : kept = [] := List.eq_nil_of_length_eq_zero (by omega)
  subst none_kept
  have dots : "...".toList ∈ (text (lines.map (cut (some width)))).toList.splitOn '\n' := by
    rw [splitOn_text]
    refine List.mem_append_left _ (List.mem_flatMap.mpr ⟨_, List.mem_map_of_mem listed, ?_⟩)
    rw [cut_eq]
    decide
  exact narrow (h _ dots)

/-- The width of a report does not show in its lines before they are cut. -/
theorem lines_eq (style : SchemaStyle) (maxWidth : Option Nat) (decls : List TypeDecl) :
    lines { style with maxWidth } decls = lines style decls := by
  have same (decl : TypeDecl) : declLines { style with maxWidth } decl = declLines style decl := by
    cases decl <;> rfl
  cases decls with
  | nil => rfl
  | cons first rest => simp only [lines, same]

theorem render_eq_text (style : SchemaStyle) (maxWidth : Option Nat) (decls : List TypeDecl) :
    render { style with maxWidth } decls = text ((lines style decls).map (cut maxWidth)) := by
  rw [render, lines_eq, text, List.map_map]
  rfl

end SchemaReport

open SchemaReport

/-- The width of a report: under a limit the report has the lines that it has without one, each of
them as it is or cut. The text keeps to the limit exactly if the three dots have room in it or no
line is longer. -/
theorem width_of_report (style : SchemaStyle) (width : Nat) (decls : List TypeDecl) :
    render { style with maxWidth := none } decls = text (lines style decls) ∧
      (∃ written, render { style with maxWidth := some width } decls = text written ∧
        List.Forall₂ (IsCut width) (lines style decls) written) ∧
      (KeepsTo width (render { style with maxWidth := some width } decls) ↔
        3 ≤ width ∨ ∀ line ∈ lines style decls, line.length ≤ width) := by
  have uncut : (lines style decls).map (cut none) = lines style decls := List.map_id' _
  rw [render_eq_text, render_eq_text, uncut]
  refine ⟨rfl, ⟨_, rfl, ?_⟩, fits_or_room, fun room => keepsTo_text ?_⟩
  · exact List.forall₂_map_right_iff.mpr (List.forall₂_same.mpr fun line _ => isCut_cut width line)
  · exact List.forall_mem_map.mpr fun line listed =>
      (isCut_cut width line).length_le (room.imp_right (· line listed))

/-- In a width of two characters a longer line becomes three dots. -/
theorem narrow_report_exceeds :
    render { maxWidth := some 2 } [.union "a" ["b"]] = "...\n" ∧
      ¬KeepsTo 2 (render { maxWidth := some 2 } [.union "a" ["b"]]) := by
  have report_eq : render { maxWidth := some 2 } [.union "a" ["b"]] = "...\n" := by decide
  refine ⟨report_eq, fun keeps => ?_⟩
  rw [report_eq] at keeps
  exact absurd (keeps "...".toList (by decide)) (by decide)

end TracedGrammar

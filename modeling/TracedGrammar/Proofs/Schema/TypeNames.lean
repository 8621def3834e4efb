import Mathlib.Data.List.Nodup
import TracedGrammar.Proofs.Grammar.Compiled
import TracedGrammar.Proofs.Schema.Width

/-!
# Type names in schema reports

A report exports one type for each rule, under the rule's name with its first letter in capital
form. Its lines are meant as entries, before they are joined to a text. The rules of a grammar that compiles have different names, but different names can have the
same capital form. The names in a report are distinct exactly if no two rules are such namesakes,
and then a type name stands for the rule that it was made from and no other.

The theorem to read first is `type_names_of_report`.
-/

namespace TracedGrammar

namespace Text

/-- A word is empty or begins with an ASCII character. -/
def BeginsInAscii (word : String) : Prop :=
  ∀ char ∈ word.toList.head?, char.toNat < 0x80

/-- Words are the same but for the case of their first letters. -/
def SameButFirstCase (first second : String) : Prop :=
  first.toList.head?.map Char.toUpper = second.toList.head?.map Char.toUpper ∧
    first.toList.tail = second.toList.tail

theorem capital_of_ascii {char : Char} (ascii : char.toNat < 0x80) :
    capital char = [char.toUpper] :=
  if_pos ascii

theorem capitalize_of_ascii {word : String} (ascii : BeginsInAscii word) :
    (capitalize word).toList =
      (word.toList.head?.map Char.toUpper).toList ++ word.toList.tail := by
  unfold capitalize
  cases word_eq : word.toList with
  | nil => rfl
  | cons first rest =>
      change (String.ofList (capital first ++ rest)).toList = [first.toUpper] ++ rest
      rw [capital_of_ascii (ascii first (by rw [word_eq]; rfl)), String.toList_ofList]

/-- Words that begin in ASCII have the same capital form exactly if they differ in the case of
their first letters at most. -/
theorem capitalize_eq_iff {first second : String} (ascii : BeginsInAscii first)
    (ascii' : BeginsInAscii second) :
    capitalize first = capitalize second ↔ SameButFirstCase first second := by
  rw [← String.toList_inj, capitalize_of_ascii ascii, capitalize_of_ascii ascii',
    SameButFirstCase]
  cases first.toList <;> cases second.toList <;> simp

end Text

namespace SchemaReport

/-- A line exports a type under a name. -/
def Exports (line name : String) : Prop :=
  line = "export interface " ++ name ++ " \x7b" ∨
    ∃ definition, line = "export type " ++ name ++ " = " ++ definition ++ ";"

/-- The line of an interface exports it under no other name. -/
theorem Exports.eq_of_interface {name other : String}
    (h : Exports ("export interface " ++ name ++ " \x7b") other) : other = name := by
  rw [Exports] at h
  obtain same | ⟨definition, same⟩ := h
  · have chars := String.toList_inj.mpr same
    simp only [String.toList_append, List.append_cancel_right_eq, List.append_cancel_left_eq]
      at chars
    exact (String.toList_inj.mp chars).symm
  · have chars := congrArg (·.toList.take 8) same
    simp at chars

/-- Whether a line exports a type. -/
def isExport (line : String) : Bool :=
  "export ".toList.isPrefixOf line.toList

/-- The lines of a report that export types. A line is an entry of the report, as it is before the
entries are joined: a field name or a tag field with a line break in it makes more lines of the text,
but not more entries. -/
def exportLines (style : SchemaStyle) (decls : List TypeDecl) : List String :=
  (lines style decls).filter isExport

theorem isExport_interface (name : String) :
    isExport ("export interface " ++ name ++ " \x7b") = true := by
  simp [isExport]

theorem isExport_type (name definition : String) :
    isExport ("export type " ++ name ++ " = " ++ definition ++ ";") = true := by
  simp [isExport]

theorem isExport_memberLine (name type : String) : isExport (memberLine name type) = false := by
  simp only [isExport, memberLine, String.toList_append]
  rfl

/-- The members of an interface export nothing. -/
theorem not_export_of_mem {style : SchemaStyle} {rule line : String} {fields : List Field}
    (among : line ∈ memberLines style rule fields) : isExport line = false := by
  obtain ⟨name, type, rfl⟩ : ∃ name type, line = memberLine name type := by
    simp only [memberLines, List.mem_append, List.mem_map] at among
    obtain (own | ⟨field, -, rfl⟩) | offset := among
    · split at own
      · cases own
      · exact ⟨_, _, List.mem_singleton.mp own⟩
    · exact ⟨_, _, rfl⟩
    · split at offset
      · rcases List.mem_cons.mp offset with rfl | offset
        · exact ⟨_, _, rfl⟩
        · exact ⟨_, _, List.mem_singleton.mp offset⟩
      · cases offset
  exact isExport_memberLine name type

/-- A declaration exports one type, under the name of its rule in capital form. -/
theorem exists_export (style : SchemaStyle) (decl : TypeDecl) :
    ∃ line, (declLines style decl).filter isExport = [line] ∧
      Exports line (Text.capitalize decl.rule) := by
  cases decl with
  | record rule fields =>
      refine ⟨_, ?_, .inl rfl⟩
      have members : (memberLines style rule fields).filter isExport = [] :=
        List.filter_eq_nil_iff.mpr fun line among => by simp [not_export_of_mem among]
      rw [declLines, List.filter_append, List.filter_append, members, List.append_nil,
        List.filter_cons_of_pos (isExport_interface _)]
      rfl
  | union rule cases =>
      refine ⟨_, ?_, .inr ⟨" | ".intercalate (cases.map Text.capitalize), rfl⟩⟩
      rw [declLines, List.filter_cons_of_pos (isExport_type _ _)]
      rfl

theorem exportLines_eq (style : SchemaStyle) (decls : List TypeDecl) :
    exportLines style decls = decls.flatMap fun decl => (declLines style decl).filter isExport := by
  cases decls with
  | nil => rfl
  | cons first rest =>
      rw [exportLines, lines, List.filter_append, List.filter_flatMap, List.flatMap_cons]
      rfl

/-- A report exports one type for each declaration, in order. -/
theorem exports_decls (style : SchemaStyle) (decls : List TypeDecl) :
    List.Forall₂ Exports (exportLines style decls) (decls.map (Text.capitalize ·.rule)) := by
  rw [exportLines_eq]
  induction decls with
  | nil => exact .nil
  | cons decl decls ih =>
      obtain ⟨line, lines_eq, exported⟩ := exists_export style decl
      rw [List.flatMap_cons, lines_eq]
      exact .cons exported ih

end SchemaReport

open SchemaReport

theorem Rule.rule_describe (rule : Rule) : rule.describe.rule = rule.name.name := by
  cases rule <;> rfl

/-- An item is the only one with its key if the keys of a list are distinct. -/
theorem filter_eq_singleton {α β : Type} [BEq β] [LawfulBEq β] {key : α → β} {items : List α}
    (distinct : (items.map key).Nodup) {item : α} (among : item ∈ items) :
    items.filter (key · == key item) = [item] := by
  obtain ⟨front, back, rfl⟩ := List.append_of_mem among
  rw [List.map_append, List.map_cons, List.nodup_middle, List.nodup_cons, ← List.map_append]
    at distinct
  have others : (front ++ back).filter (key · == key item) = [] := by
    refine List.filter_eq_nil_iff.mpr fun other among same => distinct.1 ?_
    exact eq_of_beq same ▸ List.mem_map_of_mem among
  rw [List.filter_append, List.append_eq_nil_iff] at others
  rw [List.filter_append, List.filter_cons_of_pos (by simp), others.1, others.2, List.nil_append]

namespace Grammar

theorem type_names_describe (grammar : Grammar) :
    grammar.describe.map (Text.capitalize ·.rule) = grammar.ruleNames.map Text.capitalize := by
  simp only [describe, ruleNames, List.map_map]
  exact List.map_congr_left fun rule _ => congrArg _ rule.rule_describe

end Grammar

/-- Type names in reports: a report exports one type for each rule, under the capital form of its
name and in order. If the grammar compiles, these names are distinct exactly if no two rule names
have the same capital form; for names that begin in ASCII this is so exactly if no two differ in
the case of their first letters only. Where the type names are distinct, a reference to a rule of
the grammar is written as a name under which that rule is declared and no other. -/
theorem type_names_of_report {grammar : Grammar} {maxDepth : Nat} {program : Program}
    (compiled : grammar.compile maxDepth = .ok program) (style : SchemaStyle) :
    render { style with maxWidth := none } grammar.describe =
        text (lines style grammar.describe) ∧
      List.Forall₂ Exports (exportLines style grammar.describe)
        (grammar.ruleNames.map Text.capitalize) ∧
      ((grammar.ruleNames.map Text.capitalize).Nodup ↔
        ∀ first ∈ grammar.ruleNames, ∀ second ∈ grammar.ruleNames,
          Text.capitalize first = Text.capitalize second → first = second) ∧
      ((∀ name ∈ grammar.ruleNames, Text.BeginsInAscii name) →
        ((grammar.ruleNames.map Text.capitalize).Nodup ↔
          ∀ first ∈ grammar.ruleNames, ∀ second ∈ grammar.ruleNames,
            Text.SameButFirstCase first second → first = second)) ∧
      ((grammar.ruleNames.map Text.capitalize).Nodup → ∀ rule ∈ grammar.rules,
        grammar.describe.filter (fun decl =>
          Text.capitalize decl.rule == (FieldType.reference rule.name.name).display) =
            [rule.describe]) := by
  have distinct := (Grammar.rules_of_compiled compiled).1
  have distinct_iff := List.nodup_map_iff_inj_on (f := Text.capitalize) distinct
  have uncut : (lines style grammar.describe).map (cut none) = lines style grammar.describe :=
    List.map_id' _
  refine ⟨?_, ?_, distinct_iff, fun ascii => ?_, fun distinct rule among => ?_⟩
  · rw [render_eq_text, uncut]
  · rw [← grammar.type_names_describe]
    exact exports_decls style grammar.describe
  · rw [distinct_iff]
    refine forall₂_congr fun first among => forall₂_congr fun second among' => ?_
    rw [Text.capitalize_eq_iff (ascii first among) (ascii second among')]
  · rw [← grammar.type_names_describe] at distinct
    have only := filter_eq_singleton distinct (List.mem_map_of_mem (f := Rule.describe) among)
    rwa [rule.rule_describe] at only

/-- The report on the items of the example exports three names, and each stands for one rule. -/
theorem type_names_of_item : ∃ program, itemGrammar.compile 9 = .ok program ∧
    exportLines {} itemGrammar.describe =
      ["export type Item = Word | Query;", "export interface Word \x7b",
        "export interface Query \x7b"] ∧
    List.Forall₂ Exports (exportLines {} itemGrammar.describe) ["Item", "Word", "Query"] ∧
    ∀ rule ∈ itemGrammar.rules, itemGrammar.describe.filter (fun decl =>
      Text.capitalize decl.rule == (FieldType.reference rule.name.name).display) =
        [rule.describe] := by
  obtain ⟨program, compiled⟩ : ∃ program, itemGrammar.compile 9 = .ok program := ⟨_, rfl⟩
  obtain ⟨-, exported, -, -, only⟩ := type_names_of_report compiled {}
  exact ⟨program, compiled, by decide, exported, only (by decide)⟩

/-- Two rules that differ in the case of their first letters. -/
def namesakeGrammar : Grammar where
  rules :=
    [.sequence ⟨"item", ⟨0, 4⟩⟩
        [⟨some ⟨"mark", ⟨7, 11⟩⟩, false, markLiteral '!', none, ⟨7, 15⟩⟩] ⟨0, 16⟩,
      .sequence ⟨"Item", ⟨17, 21⟩⟩
        [⟨some ⟨"first", ⟨24, 29⟩⟩, false, .reference ⟨"item", ⟨30, 34⟩⟩, none, ⟨24, 34⟩⟩]
        ⟨17, 35⟩]
  span := ⟨0, 36⟩

/-- A grammar with namesakes compiles, and both are declared under one name in its report. -/
theorem namesakes_share_type_name : ∃ program, namesakeGrammar.compile 9 = .ok program ∧
    exportLines {} namesakeGrammar.describe =
      ["export interface Item \x7b", "export interface Item \x7b"] ∧
    ∀ names, List.Forall₂ Exports (exportLines {} namesakeGrammar.describe) names →
      ¬names.Nodup := by
  have lines_eq : exportLines {} namesakeGrammar.describe =
      ["export interface " ++ "Item" ++ " \x7b", "export interface " ++ "Item" ++ " \x7b"] := by
    decide
  refine ⟨_, rfl, lines_eq, fun names exported distinct => ?_⟩
  rw [lines_eq] at exported
  obtain _ | ⟨first, rest⟩ := exported
  obtain _ | ⟨second, -⟩ := rest
  rw [first.eq_of_interface, second.eq_of_interface] at distinct
  exact absurd List.mem_cons_self (List.nodup_cons.mp distinct).1

end TracedGrammar

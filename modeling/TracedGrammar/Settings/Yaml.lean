import TracedGrammar.Settings
import TracedGrammar.Yaml.Node

/-!
# Settings from YAML

Settings are read from a mapping. Every key may be left out, none may occur twice, and no other is
allowed. An empty scalar counts as the empty mapping. Numbers and truth values have to be plain
scalars, or literal blocks that are tagged as such; texts are taken as they are written, even if
they look like something else.
-/

namespace TracedGrammar

/-- What is wrong with settings. -/
inductive SettingsFault where
  | malformed
  | noDepth
deriving DecidableEq

/-- The report of what is wrong with settings. -/
def SettingsFault.diagnostic : SettingsFault → Diagnostic
  | malformed => { kind := .config, message := "invalid configuration" }
  | noDepth => { kind := .config, message := "max_depth must be at least 1" }

namespace Yaml

/-- The value of a digit in bases up to sixteen. -/
def digitBelow? (base : Nat) (char : Char) : Option Nat :=
  (Json.hexValue? char).filter (· < base)

/-- The number that digits of a base stand for; there has to be one digit at least. -/
def digits? (base : Nat) (chars : List Char) : Option Nat :=
  if chars.isEmpty then none
  else chars.foldlM (fun value char => (digitBelow? base char).map (value * base + ·)) 0

/-- A 64-bit natural in decimal, or in another base behind `0x`, `0o` or `0b`; a plus sign may stand
in front. A decimal number of several digits does not start with zero. -/
def natural? (text : String) : Option Nat :=
  let chars := match text.toList with
    | '+' :: rest => rest
    | chars => chars
  let value := match chars with
    | '0' :: 'x' :: rest => digits? 16 rest
    | '0' :: 'o' :: rest => digits? 8 rest
    | '0' :: 'b' :: rest => digits? 2 rest
    | '0' :: _ :: _ => none
    | chars => digits? 10 chars
  value.filter (· < UInt64.size)

/-- Whether a text is one of the spellings of null. -/
def isNull (text : String) : Bool :=
  ["~", "null", "Null", "NULL"].contains text

namespace Document

/-- The text of a scalar. -/
def text? (document : Document) (node : Node) : Option String :=
  match document.resolve? node with
  | some (.scalar text _ _) => some text
  | _ => none

/-- The text of a scalar that is plain, or a literal block with a given tag. -/
def bareText? (document : Document) (expected : String) (node : Node) : Option String :=
  match document.resolve? node with
  | some (.scalar text .plain _) => some text
  | some (.scalar text .literal tag) => if tag = some expected then some text else none
  | _ => none

/-- The natural that a scalar stands for. -/
def natural? (document : Document) (node : Node) : Option Nat :=
  (document.bareText? Tag.int node).bind Yaml.natural?

/-- The truth value that a scalar stands for. -/
def bool? (document : Document) (node : Node) : Option Bool :=
  (document.bareText? Tag.bool node).bind fun text =>
    if ["true", "True", "TRUE"].contains text then some true
    else if ["false", "False", "FALSE"].contains text then some false
    else none

/-- Null, or what the given reader reads. A plain scalar with a tag is null if the tag says so, and
then it has to be spelled out. -/
def optional? (document : Document) (read : Node → Option α) (node : Node) :
    Option (Option α) :=
  match document.resolve? node with
  | some (.scalar text .plain none) =>
      if text.isEmpty || isNull text then some none else (read node).map some
  | some (.scalar text .plain (some tag)) =>
      if tag == Tag.null then if isNull text then some none else none
      else (read node).map some
  | _ => (read node).map some

/-- The entries of a mapping, whose keys are texts. -/
def entries? (document : Document) (node : Node) : Option (List (String × Node)) :=
  match document.resolve? node with
  | some (.mapping entries) =>
      entries.mapM fun (key, value) => (document.text? key).map fun key => (key, value)
  | some (.scalar "" .plain _) => some []
  | _ => none

/-- The entries of a mapping whose keys are different and all among the given ones. -/
def entriesAmong? (document : Document) (keys : List String) (node : Node) :
    Option (List (String × Node)) := do
  let entries ← document.entries? node
  let given := entries.map (·.1)
  if given.all keys.contains && given.eraseDups.length = given.length then some entries else none

end Document

end Yaml

open Yaml (Document Node)

/-- The value under a key, or the given one without the key. -/
def entryOr? (entries : List (String × Node)) (key : String) (fallback : α)
    (read : Node → Option α) : Option α :=
  match entries.lookup key with
  | none => some fallback
  | some node => read node

/-- The options of the schema report that a node of a document stands for. -/
def SchemaStyle.ofNode? (document : Document) (node : Node) : Option SchemaStyle := do
  let entries ← document.entriesAmong? ["tag_field", "include_offsets", "max_width"] node
  let base : SchemaStyle := {}
  return {
    tagField := ← entryOr? entries "tag_field" base.tagField document.text?
    includeOffsets := ← entryOr? entries "include_offsets" base.includeOffsets document.bool?
    maxWidth :=
      ← entryOr? entries "max_width" base.maxWidth (document.optional? document.natural?) }

/-- The settings that a document stands for. -/
def Settings.ofDocument? (document : Document) : Option Settings := do
  let entries ← document.entriesAmong? ["start_rule", "max_depth", "schema"] document.root
  let base : Settings := {}
  return {
    startRule :=
      ← entryOr? entries "start_rule" base.startRule (document.optional? document.text?)
    maxDepth := ← entryOr? entries "max_depth" base.maxDepth document.natural?
    schema := ← entryOr? entries "schema" base.schema (SchemaStyle.ofNode? document) }

/-- The settings that a YAML text stands for. -/
def Settings.ofYaml (text : String) : Except SettingsFault Settings :=
  match (Document.ofText? text).bind Settings.ofDocument? with
  | none => .error .malformed
  | some settings => if settings.maxDepth = 0 then .error .noDepth else .ok settings

end TracedGrammar

import TracedGrammar.Yaml.Token

/-!
# Nodes of YAML

The tree of the one document that a stream holds. Missing keys, values and entries are empty plain
scalars, and a tag is kept on scalars only. Anchors are numbered: a name gets the number of names
there are before it, also when it is given anew. An alias takes the number that its name has where
the alias stands, and stands for the last node of the whole document with that number.
-/

namespace TracedGrammar.Yaml

/-- A node of a document. -/
inductive Node where
  | scalar (text : String) (style : ScalarStyle) (tag : Option String)
  | sequence (items : List Node)
  | mapping (entries : List (Node × Node))
  | anchored (number : Nat) (node : Node)
  | alias (number : Nat)
deriving Inhabited

namespace Node

/-- The node in place of one that is missing. -/
def missing : Node := scalar "" .plain none

mutual

/-- The nodes that have anchors, with their numbers, in the order in which they begin. -/
def anchors : Node → List (Nat × Node)
  | anchored number node => (number, node) :: node.anchors
  | sequence items => anchorsOfItems items
  | mapping entries => anchorsOfEntries entries
  | _ => []

/-- The nodes that have anchors among items. -/
def anchorsOfItems : List Node → List (Nat × Node)
  | [] => []
  | item :: items => item.anchors ++ anchorsOfItems items

/-- The nodes that have anchors among keys and values. -/
def anchorsOfEntries : List (Node × Node) → List (Nat × Node)
  | [] => []
  | (key, value) :: entries => key.anchors ++ value.anchors ++ anchorsOfEntries entries

end

end Node

/-- A document: its root, and the nodes that have anchors, the last one first. -/
structure Document where
  root : Node
  anchors : List (Nat × Node)

namespace Document

/-- The document with a given root. -/
def ofRoot (root : Node) : Document :=
  { root, anchors := root.anchors.reverse }

/-- The scalar or collection that a node stands for in a document. -/
def resolve? (document : Document) : Node → Option Node
  | .alias number => document.anchors.lookup number
  | .anchored _ node => some node
  | node => some node

end Document

/-- The tokens left, the numbers of anchors by their names, and the handles of tags. -/
structure Cursor where
  tokens : List Token
  numbers : List (String × Nat) := []
  handles : List (String × String) := Tag.standardHandles

/-- The anchor and the full name of the tag that stand in front of a node. -/
structure Properties where
  anchor : Option String := none
  tag : Option String := none

/-- A reader of nodes. -/
abbrev Reader := StateT Cursor Option

namespace Reader

/-- The next token. -/
def peek? : Reader (Option Token) := do
  return (← get).tokens.head?

/-- Takes the next token. -/
def advance : Reader Unit :=
  modify fun cursor => { cursor with tokens := cursor.tokens.drop 1 }

/-- Takes the next token if it is the given one. -/
def accept (token : Token) : Reader Bool := do
  if (← peek?) = some token then
    advance
    return true
  else return false

/-- Whether one of the given tokens comes next, or none at all. -/
def atAny (tokens : List Token) : Reader Bool := do
  match ← peek? with
  | none => return true
  | some token => return tokens.contains token

/-- The anchor that comes next, if one does. -/
def anchor : Reader (Option String) := do
  match ← peek? with
  | some (.anchor name) =>
      advance
      return some name
  | _ => return none

/-- The full name of the tag that comes next, if one does. -/
def tag : Reader (Option String) := do
  match ← peek? with
  | some (.tag tag) =>
      advance
      let name ← tag.resolve? (← get).handles
      return some name
  | _ => return none

/-- The anchor and the tag in front of a node, in either order. -/
def properties : Reader Properties := do
  match ← anchor with
  | some name => return { anchor := some name, tag := ← tag }
  | none =>
      match ← tag with
      | some name => return { anchor := ← anchor, tag := some name }
      | none => return {}

/-- Gives a name its number. -/
def number (name : String) : Reader Nat := do
  let number := (← get).numbers.length
  modify fun cursor =>
    { cursor with numbers := (name, number) :: cursor.numbers.filter (·.1 != name) }
  return number

mutual

/-- A node. Inside a block it may be a block collection, and behind a key also a sequence whose
entries are not indented. -/
def node : (fuel : Nat) → (block bare : Bool) → Reader Node
  | 0, _, _ => failure
  | fuel + 1, block, bare => do
      if let some (.alias name) ← peek? then
        advance
        return .alias (← (← get).numbers.lookup name)
      let properties ← properties
      match properties.anchor with
      | some name => return .anchored (← number name) (← content fuel block bare properties)
      | none => content fuel block bare properties

/-- A node behind its anchor and its tag, with which it may be missing. -/
def content : (fuel : Nat) → (block bare : Bool) → Properties → Reader Node
  | 0, _, _, _ => failure
  | fuel + 1, block, bare, properties => do
      let empty :=
        if properties.anchor.isSome || properties.tag.isSome then
          pure (.scalar "" .plain properties.tag)
        else failure
      match ← peek? with
      | some .blockEntry => if bare then bareEntries fuel [] else empty
      | some (.scalar text style) =>
          advance
          return .scalar text style properties.tag
      | some .flowSequenceStart =>
          advance
          flowItems fuel true []
      | some .flowMappingStart =>
          advance
          flowPairs fuel true []
      | some .blockSequenceStart =>
          if block then
            advance
            blockEntries fuel []
          else empty
      | some .blockMappingStart =>
          if block then
            advance
            blockPairs fuel []
          else empty
      | _ => empty

/-- A node, or a missing one before the given tokens. -/
def nodeUnless : (fuel : Nat) → (block bare : Bool) → (ends : List Token) → Reader Node
  | 0, _, _, _ => failure
  | fuel + 1, block, bare, ends => do
      if ← atAny ends then return .missing else node fuel block bare

/-- The entries of a sequence that indentation has opened. -/
def blockEntries : (fuel : Nat) → (items : List Node) → Reader Node
  | 0, _ => failure
  | fuel + 1, items => do
      if ← accept .blockEntry then
        let item ← nodeUnless fuel true false [.blockEntry, .blockEnd]
        blockEntries fuel (item :: items)
      else if ← accept .blockEnd then return .sequence items.reverse
      else failure

/-- The entries of a sequence that is indented like the key it belongs to. -/
def bareEntries : (fuel : Nat) → (items : List Node) → Reader Node
  | 0, _ => failure
  | fuel + 1, items => do
      if ← accept .blockEntry then
        let item ← nodeUnless fuel true false [.blockEntry, .key, .value, .blockEnd]
        bareEntries fuel (item :: items)
      else return .sequence items.reverse

/-- The pairs of a mapping that indentation has opened. -/
def blockPairs : (fuel : Nat) → (entries : List (Node × Node)) → Reader Node
  | 0, _ => failure
  | fuel + 1, entries => do
      if ← accept .key then
        let key ← nodeUnless fuel true true [.key, .value, .blockEnd]
        let value ←
          if ← accept .value then nodeUnless fuel true true [.key, .value, .blockEnd]
          else pure .missing
        blockPairs fuel ((key, value) :: entries)
      else if ← accept .blockEnd then return .mapping entries.reverse
      else failure

/-- The items of a sequence in brackets. An item may be a single pair. -/
def flowItems : (fuel : Nat) → (first : Bool) → (items : List Node) → Reader Node
  | 0, _, _ => failure
  | fuel + 1, first, items => do
      if ← accept .flowSequenceEnd then return .sequence items.reverse
      if !first && !(← accept .flowEntry) then failure
      if ← accept .key then
        let ends := [Token.flowEntry, .flowSequenceEnd]
        let key ← nodeUnless fuel false false (.value :: ends)
        let value ← if ← accept .value then nodeUnless fuel false false ends else pure .missing
        flowItems fuel false (.mapping [(key, value)] :: items)
      else if ← accept .flowSequenceEnd then return .sequence items.reverse
      else
        let item ← node fuel false false
        flowItems fuel false (item :: items)

/-- The pairs of a mapping in braces. -/
def flowPairs : (fuel : Nat) → (first : Bool) → (entries : List (Node × Node)) → Reader Node
  | 0, _, _ => failure
  | fuel + 1, first, entries => do
      if ← accept .flowMappingEnd then return .mapping entries.reverse
      if !first && !(← accept .flowEntry) then failure
      let ends := [Token.flowEntry, .flowMappingEnd]
      if ← accept .key then
        let key ← nodeUnless fuel false false (.value :: ends)
        let value ← if ← accept .value then nodeUnless fuel false false ends else pure .missing
        flowPairs fuel false ((key, value) :: entries)
      else if ← accept .flowMappingEnd then return .mapping entries.reverse
      else
        let key ← node fuel false false
        flowPairs fuel false ((key, .missing) :: entries)

end

/-- Takes tokens as long as they are the given one. -/
def skipAll (token : Token) : Reader Unit :=
  modify fun cursor => { cursor with tokens := cursor.tokens.dropWhile (· == token) }

/-- The root of a document whose start is marked. -/
def root (fuel : Nat) : Reader Node := do
  match ← peek? with
  | none | some (.directive _) | some .documentStart | some .documentEnd => return .missing
  | some _ => node fuel true false

/-- Takes the directives that come next. A version may be demanded once, and no handle is defined
twice. -/
def directives : (fuel : Nat) → (versions : Nat) → (defined : List (String × String)) → Reader Unit
  | 0, _, _ => failure
  | fuel + 1, versions, defined => do
      match ← peek? with
      | some (.directive (.version _ _)) =>
          advance
          if versions = 0 then directives fuel 1 defined else failure
      | some (.directive (.handle name leading)) =>
          advance
          if (defined.lookup name).isNone then directives fuel versions ((name, leading) :: defined)
          else failure
      | _ => modify fun cursor => { cursor with handles := defined ++ cursor.handles }

/-- The only document of a stream. Without a document its root is missing. -/
def document : Reader Document := do
  let fuel := 3 * (← get).tokens.length + 3
  let root ← match ← peek? with
    | none => pure .missing
    | some (.directive _) => do
        directives fuel 0 []
        if ← accept .documentStart then root fuel else failure
    | some .documentStart => do
        advance
        root fuel
    | some _ => node fuel true false
  skipAll .documentEnd
  if (← peek?).isSome then failure else return .ofRoot root

end Reader

/-- The document of a stream that holds at most one. -/
def Document.ofText? (text : String) : Option Document := do
  let tokens ← tokens? text
  return (← Reader.document.run { tokens }).1

end TracedGrammar.Yaml

import TracedGrammar.Yaml.Scalar

/-!
# Tags and directives of YAML

A tag names the kind of a node. It is written in full between angle brackets, or as a handle and a
rest; a handle stands for the leading part that a directive, or the standard, gives to it.
-/

namespace TracedGrammar.Yaml

/-- A tag as written: its handle, empty if the tag is written in full, and the rest. -/
structure Tag where
  handle : String
  rest : String
deriving DecidableEq

/-- A directive in front of a document. -/
inductive Directive where
  | version (major minor : Nat)
  | handle (name leading : String)
deriving DecidableEq

namespace Tag

/-- The tag of null. -/
def null : String := "tag:yaml.org,2002:null"

/-- The tag of integers. -/
def int : String := "tag:yaml.org,2002:int"

/-- The tag of truth values. -/
def bool : String := "tag:yaml.org,2002:bool"

/-- The handles that need no directive. -/
def standardHandles : List (String × String) :=
  [("!", "!"), ("!!", "tag:yaml.org,2002:")]

/-- The full name of a tag under the handles of a document. -/
def resolve? (handles : List (String × String)) (tag : Tag) : Option String :=
  if tag.handle.isEmpty then some tag.rest
  else (handles.lookup tag.handle).map (· ++ tag.rest)

end Tag

/-- Whether a character may occur in a name. -/
def isNameChar (char : Char) : Bool :=
  char.isAlphanum || char == '_' || char == '-'

/-- The name that comes next, which may be empty, and what follows. -/
def nameAhead (chars : List Placed) : String × List Placed :=
  (String.ofList ((chars.takeWhile (isNameChar ·.char)).map (·.char)),
    chars.dropWhile (isNameChar ·.char))

/-- Whether a character may occur in a tag. Commas and square brackets may where the end of the tag
is marked. -/
def isTagChar (marked : Bool) (char : Char) : Bool :=
  isNameChar char || ";/?:@&=+$.!~*'()%".contains char || (marked && ",[]".contains char)

/-- The number of octets that have to follow a leading octet as escapes. -/
def octetsAfter? (octet : Nat) : Option Nat :=
  if octet < 0x80 then some 0
  else if octet < 0xc0 then none
  else if octet < 0xe0 then some 1
  else if octet < 0xf0 then some 2
  else if octet < 0xf8 then some 3
  else none

/-- Whether an octet is one that follows a leading octet. -/
def isTrailing (octet : Nat) : Bool :=
  0x80 ≤ octet && octet < 0xc0

/-- What tag characters stand for when a number of trailing octets is still to come. A percent sign
with two hexadecimal digits stands for an octet, each of which is kept as a character of its own. -/
def unescape? : (trailing : Nat) → List Char → Option (List Char)
  | trailing, '%' :: high :: low :: chars => do
      let octet := (← Json.hexValue? high) * 16 + (← Json.hexValue? low)
      let trailing ←
        if trailing = 0 then octetsAfter? octet
        else if isTrailing octet then some (trailing - 1)
        else none
      return Char.ofNat octet :: (← unescape? trailing chars)
  | trailing, char :: chars =>
      if char == '%' || trailing != 0 then none else (unescape? 0 chars).map (char :: ·)
  | trailing, [] => if trailing = 0 then some [] else none

/-- The tag characters that come next, unescaped, and what follows. -/
def tagChars? (marked : Bool) (chars : List Placed) : Option (List Char × List Placed) := do
  let text ← unescape? 0 ((chars.takeWhile (isTagChar marked ·.char)).map (·.char))
  return (text, chars.dropWhile (isTagChar marked ·.char))

/-- The text of tag characters. A zero character ends it. -/
def tagText (chars : List Char) : String :=
  String.ofList (chars.takeWhile (·.toNat != 0))

/-- The text of the tag characters that come next, of which there has to be one at least, and what
follows. -/
def tagText? (marked : Bool) (chars : List Placed) : Option (String × List Placed) := do
  let (text, rest) ← tagChars? marked chars
  if text.isEmpty then none else some (tagText text, rest)

/-- The tag from behind its exclamation mark on, and what follows. An exclamation mark alone is the
tag of that name. -/
def tag? (flow : Bool) (chars : List Placed) : Option (Tag × List Placed) := do
  let (name, behind) := nameAhead chars
  let (tag, rest) ←
    if peek? chars = some '<' then do
      let (text, rest) ← tagText? true (chars.drop 1)
      if peek? rest = some '>' then some (Tag.mk "" text, rest.drop 1) else none
    else if peek? behind = some '!' then do
      let (text, rest) ← tagText? false (behind.drop 1)
      some (Tag.mk ("!" ++ name ++ "!") text, rest)
    else do
      let (text, rest) ← tagChars? false chars
      let text := tagText text
      some (if text.isEmpty then Tag.mk "" "!" else Tag.mk "!" text, rest)
  if atBlank rest || (flow && peek? rest = some ',') then some (tag, rest) else none

/-- What follows the blanks that come next. -/
def dropBlanks (chars : List Placed) : List Placed :=
  chars.dropWhile (isBlank ·.char)

/-- The number of at most nine digits that comes next, and what follows. -/
def number? (chars : List Placed) : Option (Nat × List Placed) :=
  let digits := (chars.takeWhile (·.char.isDigit)).map (·.char)
  if digits.isEmpty || 9 < digits.length then none
  else
    some (digits.foldl (fun value digit => value * 10 + (digit.toNat - '0'.toNat)) 0,
      chars.dropWhile (·.char.isDigit))

/-- The version that a directive demands, and what follows. Only two are known. -/
def version? (chars : List Placed) : Option (Directive × List Placed) := do
  let (major, rest) ← number? (dropBlanks chars)
  let (minor, rest) ← if peek? rest = some '.' then number? (rest.drop 1) else none
  if major = 1 && (minor = 1 || minor = 2) then some (.version major minor, rest) else none

/-- The handle that a directive defines, and what follows. -/
def handle? (chars : List Placed) : Option (Directive × List Placed) := do
  let chars := dropBlanks chars
  let (name, behind) := nameAhead (chars.drop 1)
  if peek? chars != some '!' then none
  let (handle, rest) ←
    if peek? behind = some '!' then some ("!" ++ name ++ "!", behind.drop 1)
    else if name.isEmpty then some ("!", behind)
    else none
  if !((peek? rest).map isBlank).getD false then none
  let (leading, rest) ← tagText? true (dropBlanks rest)
  if atBlank rest then some (.handle handle leading, rest) else none

/-- The directive from behind its percent sign on, and what follows its line's content. -/
def directive? (chars : List Placed) : Option (Directive × List Placed) := do
  let (name, rest) := nameAhead chars
  let (directive, rest) ←
    if !atBlank rest then none
    else if name == "YAML" then version? rest
    else if name == "TAG" then handle? rest
    else none
  let rest := dropBlanks rest
  let rest := if peek? rest = some '#' then rest.dropWhile (!isBreak ·.char) else rest
  if atBreak rest then some (directive, rest) else none

end TracedGrammar.Yaml

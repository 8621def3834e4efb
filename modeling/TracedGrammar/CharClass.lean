/-!
# Character classes

A class is a list of single characters and inclusive ranges, possibly negated. It accepts exactly
one character. Its written form is the class syntax of grammar documents.
-/

namespace TracedGrammar

/-- One member of a character class; both ends of a range belong to it. -/
inductive ClassItem where
  | single (char : Char)
  | range (low high : Char)
deriving DecidableEq

namespace ClassItem

/-- Whether the member covers a character. A range with its bounds the wrong way round covers
none. -/
def covers (char : Char) : ClassItem → Bool
  | single member => member == char
  | range low high => low ≤ char && char ≤ high

end ClassItem

/-- A set of characters given by its members, or by those it leaves out. -/
structure CharClass where
  isNegated : Bool := false
  items : List ClassItem := []
deriving DecidableEq

namespace CharClass

/-- The class that accepts no character. -/
def empty : CharClass := {}

/-- The class with one more member. -/
def add (set : CharClass) (item : ClassItem) : CharClass :=
  { set with items := set.items ++ [item] }

/-- The class with each character of a text as a further member. -/
def addChars (set : CharClass) (chars : String) : CharClass :=
  { set with items := set.items ++ chars.toList.map .single }

/-- The class with one more range. -/
def addRange (set : CharClass) (low high : Char) : CharClass :=
  set.add (.range low high)

/-- The complement. -/
def negate (set : CharClass) : CharClass :=
  { set with isNegated := !set.isNegated }

/-- Whether the class accepts a character. -/
def accepts (set : CharClass) (char : Char) : Bool :=
  set.items.any (·.covers char) != set.isNegated

/-- A class member's character as class syntax writes it: the characters with a meaning of their
own are escaped, and so are line ends and tabs. -/
def escapeChar (char : Char) : List Char :=
  if char = '\\' || char = '[' || char = ']' || char = '^' || char = '-' then ['\\', char]
  else if char = '\r' then ['\\', 'r']
  else if char = '\n' then ['\\', 'n']
  else if char = '\t' then ['\\', 't']
  else [char]

/-- One member in class syntax. -/
def displayItem : ClassItem → List Char
  | .single char => escapeChar char
  | .range low high => escapeChar low ++ '-' :: escapeChar high

/-- The class in class syntax. -/
def display (set : CharClass) : String :=
  String.ofList <|
    ['['] ++ (if set.isNegated then ['^'] else []) ++ set.items.flatMap displayItem ++ [']']

@[simp] theorem accepts_negate (set : CharClass) (char : Char) :
    set.negate.accepts char = !set.accepts char := by
  cases hit : set.items.any (·.covers char) <;> cases flag : set.isNegated <;>
    simp [accepts, negate, hit, flag]

end CharClass

end TracedGrammar

/-!
# JSON values

JSON with the members of an object in the order they are written, since that order shows in the
text. Numbers are whole, or decimal fractions for the readers that have to refuse them.
-/

namespace TracedGrammar

/-- A JSON value. A `fraction` is a number written with decimal places: `mantissa` with the point
`places` digits from its end. -/
inductive Json where
  | null
  | bool (value : Bool)
  | int (value : Int)
  | fraction (mantissa : Int) (places : Nat)
  | str (value : String)
  | arr (items : List Json)
  | obj (members : List (String × Json))
deriving Inhabited

namespace Json

/-- The number of a natural. -/
def nat (value : Nat) : Json :=
  .int value

/-- A text, or null in its absence. -/
def ofText? : Option String → Json
  | none => .null
  | some text => .str text

/-- A number, or null in its absence. -/
def ofNat? : Option Nat → Json
  | none => .null
  | some value => .nat value

end Json

end TracedGrammar

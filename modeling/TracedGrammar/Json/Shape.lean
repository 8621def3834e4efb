import TracedGrammar.Json

/-!
# Reading shapes out of JSON

A record may be written as an object by key, where unknown keys are ignored, or as an array by
position, where every position has to be there. A variant carries its tag under a key of the object
or as the first item of the array. Offsets are 64-bit naturals.
-/

namespace TracedGrammar.Json

/-- A text. -/
def asText? : Json → Option String
  | .str value => some value
  | _ => none

/-- A truth value. -/
def asBool? : Json → Option Bool
  | .bool value => some value
  | _ => none

/-- The items of an array. -/
def asList? : Json → Option (List Json)
  | .arr items => some items
  | _ => none

/-- A natural below a bound. -/
def asNatBelow? (bound : Nat) : Json → Option Nat
  | .int value => if 0 ≤ value ∧ value < bound then some value.toNat else none
  | _ => none

/-- A byte offset. -/
def asOffset? : Json → Option Nat :=
  asNatBelow? UInt64.size

/-- A text of exactly one character. -/
def asChar? : Json → Option Char
  | .str value =>
      match value.toList with
      | [char] => some char
      | _ => none
  | _ => none

/-- An optional value: absent, null, or read by the given reader. -/
def optional? (read : Json → Option α) : Option Json → Option (Option α)
  | none => some none
  | some .null => some none
  | some json => (read json).map some

/-- The values of a record under its keys. A key of an object may be missing; an array has to hold
one item for each key. -/
def columns? (keys : List String) : Json → Option (List (Option Json))
  | .obj members => some (keys.map fun key => members.lookup key)
  | .arr items => if items.length = keys.length then some (items.map some) else none
  | _ => none

/-- The tag of a variant, and what is left for its record. -/
def variant? (key : String) : Json → Option (Json × Json)
  | .obj members =>
      (members.lookup key).map fun tag => (tag, .obj (members.filter (·.1 ≠ key)))
  | .arr (tag :: items) => some (tag, .arr items)
  | _ => none

/-- The position of a name in a list. -/
def position? (names : List String) (name : String) : Option Nat :=
  names.findIdx? (· == name)

/-- The tag of a variant as the position of its name. -/
def tagByName? (names : List String) (tag : Json) : Option Nat :=
  tag.asText?.bind (position? names)

/-- The tag of a variant inside another one: its name, or its position as a number. -/
def tagByNameOrPosition? (names : List String) : Json → Option Nat
  | .str name => position? names name
  | json => json.asNatBelow? names.length

/-- A choice among names: the name itself, or an object with nothing under it. -/
def choice? (names : List String) : Json → Option Nat
  | .str name => position? names name
  | .obj [(name, .null)] => position? names name
  | .obj [(name, .obj [])] => position? names name
  | _ => none

end TracedGrammar.Json

import TracedGrammar.Json

/-!
# JSON text

The written forms of a JSON value: `compact` on one line without blanks, `pretty` with one member or
item a line and two blanks for each level. Strings escape the quote, the backslash and the control
characters only. `unquote?` reads a written string back.
-/

namespace TracedGrammar.Json

/-- The short escape of a character, as the letter after the backslash. -/
def shortEscape? (char : Char) : Option Char :=
  if char = '"' then some '"'
  else if char = '\\' then some '\\'
  else if char = '\n' then some 'n'
  else if char = '\r' then some 'r'
  else if char = '\t' then some 't'
  else if char.toNat = 0x8 then some 'b'
  else if char.toNat = 0xc then some 'f'
  else none

/-- The lower-case hexadecimal digit of a number below sixteen. -/
def hexDigit (value : Nat) : Char :=
  if value < 10 then Char.ofNat (0x30 + value) else Char.ofNat (0x57 + value)

/-- A character inside a JSON string. -/
def quoteChar (char : Char) : List Char :=
  match shortEscape? char with
  | some letter => ['\\', letter]
  | none =>
      if char.toNat < 0x20 then
        ['\\', 'u', '0', '0', hexDigit (char.toNat / 16), hexDigit (char.toNat % 16)]
      else [char]

/-- A text as a JSON string. -/
def quote (text : String) : String :=
  String.ofList ('"' :: (text.toList.flatMap quoteChar ++ ['"']))

/-- The character a short escape stands for. -/
def ofShortEscape? (letter : Char) : Option Char :=
  if letter = '"' then some '"'
  else if letter = '\\' then some '\\'
  else if letter = '/' then some '/'
  else if letter = 'n' then some '\n'
  else if letter = 'r' then some '\r'
  else if letter = 't' then some '\t'
  else if letter = 'b' then some (Char.ofNat 0x8)
  else if letter = 'f' then some (Char.ofNat 0xc)
  else none

/-- The value of a hexadecimal digit in either case. -/
def hexValue? (digit : Char) : Option Nat :=
  if '0' ≤ digit && digit ≤ '9' then some (digit.toNat - 0x30)
  else if 'a' ≤ digit && digit ≤ 'f' then some (digit.toNat - 0x57)
  else if 'A' ≤ digit && digit ≤ 'F' then some (digit.toNat - 0x37)
  else none

/-- The characters of a JSON string whose opening quote has been read, up to a closing quote that
ends the text. -/
def unquoteChars? : List Char → Option (List Char)
  | [] => none
  | ['"'] => some []
  | '\\' :: 'u' :: a :: b :: c :: d :: rest => do
      let code := (((← hexValue? a) * 16 + (← hexValue? b)) * 16 + (← hexValue? c)) * 16
        + (← hexValue? d)
      return Char.ofNat code :: (← unquoteChars? rest)
  | '\\' :: letter :: rest => do
      return (← ofShortEscape? letter) :: (← unquoteChars? rest)
  | char :: rest =>
      if char = '"' || char = '\\' || char.toNat < 0x20 then none
      else (unquoteChars? rest).map (char :: ·)

/-- The text that a JSON string of the basic plane stands for. -/
def unquote? (quoted : String) : Option String :=
  match quoted.toList with
  | '"' :: chars => (unquoteChars? chars).map String.ofList
  | _ => none

/-- The digits of a natural, at least a given number of them. -/
def padDigits (width value : Nat) : List Char :=
  let digits := Nat.toDigits 10 value
  List.replicate (width - digits.length) '0' ++ digits

/-- A number with decimal places. -/
def fractionText (mantissa : Int) (places : Nat) : String :=
  let digits := padDigits (places + 1) mantissa.natAbs
  let whole := digits.take (digits.length - places)
  let decimals := digits.drop (digits.length - places)
  (if mantissa < 0 then "-" else "") ++ String.ofList (whole ++ '.' :: decimals)

mutual

/-- The text without blanks. -/
def compact : Json → String
  | .null => "null"
  | .bool value => if value then "true" else "false"
  | .int value => toString value
  | .fraction mantissa places => fractionText mantissa places
  | .str value => quote value
  | .arr items => "[" ++ ",".intercalate (compactItems items) ++ "]"
  | .obj members => "\x7b" ++ ",".intercalate (compactMembers members) ++ "\x7d"

/-- The texts of the items of an array. -/
def compactItems : List Json → List String
  | [] => []
  | item :: items => item.compact :: compactItems items

/-- The texts of the members of an object. -/
def compactMembers : List (String × Json) → List String
  | [] => []
  | (key, value) :: members => (quote key ++ ":" ++ value.compact) :: compactMembers members

end

/-- A line break and the blanks before the text of a level. -/
def newLine (level : Nat) : String :=
  "\n" ++ String.ofList (List.replicate (2 * level) ' ')

/-- Entries between brackets, each on a line of its own one level in. -/
def prettyBlock (opening closing : String) (level : Nat) : List String → String
  | [] => opening ++ closing
  | entries =>
      opening ++ newLine (level + 1) ++ ("," ++ newLine (level + 1)).intercalate entries
        ++ newLine level ++ closing

mutual

/-- The text with one entry a line, for a value that stands at a level. -/
def prettyAt (level : Nat) : Json → String
  | .arr items => prettyBlock "[" "]" level (prettyItems (level + 1) items)
  | .obj members => prettyBlock "\x7b" "\x7d" level (prettyMembers (level + 1) members)
  | .null => compact .null
  | .bool value => compact (.bool value)
  | .int value => compact (.int value)
  | .fraction mantissa places => compact (.fraction mantissa places)
  | .str value => compact (.str value)

/-- The texts of the items of an array that stand at a level. -/
def prettyItems (level : Nat) : List Json → List String
  | [] => []
  | item :: items => item.prettyAt level :: prettyItems level items

/-- The texts of the members of an object that stand at a level. -/
def prettyMembers (level : Nat) : List (String × Json) → List String
  | [] => []
  | (key, value) :: members =>
      (quote key ++ ": " ++ value.prettyAt level) :: prettyMembers level members

end

/-- The text with one entry a line. -/
def pretty (json : Json) : String :=
  json.prettyAt 0

end TracedGrammar.Json

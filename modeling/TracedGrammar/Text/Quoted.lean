import TracedGrammar.Text.Invisible

/-!
# Quoted text

Two ways to show characters in messages. `quote` wraps a text in double quotes and writes every
character that would not show as itself as an escape. `escapeAscii` shows a single character in
ASCII only.
-/

namespace TracedGrammar.Text

/-- A character by its number, as `\u` and the lower-case hexadecimal digits in braces. -/
def escapeCode (char : Char) : List Char :=
  ['\\', 'u', '{'] ++ Nat.toDigits 16 char.toNat ++ ['}']

/-- A character inside double quotes. -/
def quoteChar (char : Char) : List Char :=
  if char = '\\' || char = '"' then ['\\', char]
  else if char = '\n' then ['\\', 'n']
  else if char = '\r' then ['\\', 'r']
  else if char = '\t' then ['\\', 't']
  else if char.toNat = 0 then ['\\', '0']
  else if isInvisible char then escapeCode char
  else [char]

/-- A text in double quotes, every character of it visible. -/
def quote (text : String) : String :=
  String.ofList ('"' :: text.toList.flatMap quoteChar ++ ['"'])

/-- A character in printable ASCII: quotes and backslashes escaped, line ends and tabs by letter,
everything else that is not printable ASCII by number. -/
def escapeAscii (char : Char) : List Char :=
  if char = '\\' || char = '"' || char = '\'' then ['\\', char]
  else if char = '\n' then ['\\', 'n']
  else if char = '\r' then ['\\', 'r']
  else if char = '\t' then ['\\', 't']
  else if 0x20 ≤ char.toNat && char.toNat ≤ 0x7e then [char]
  else escapeCode char

end TracedGrammar.Text

/-!
# Cursors

A cursor is a place in a text, held as the number of bytes before it together with the characters
after it. Matching only looks at the characters after the cursor, so nothing here needs the whole
text again, and a saved cursor is a value that can simply be used once more.
-/

namespace TracedGrammar

/-- The longest leading run of characters that fits into a number of bytes. -/
def takeBytes : Nat → List Char → List Char
  | _, [] => []
  | bytes, char :: rest =>
      if char.utf8Size ≤ bytes then char :: takeBytes (bytes - char.utf8Size) rest else []

/-- What follows `takeBytes`. -/
def dropBytes : Nat → List Char → List Char
  | _, [] => []
  | bytes, char :: rest =>
      if char.utf8Size ≤ bytes then dropBytes (bytes - char.utf8Size) rest else char :: rest

/-- What is left of a text that starts with the given characters. -/
def dropLiteral? : (literal text : List Char) → Option (List Char)
  | [], text => some text
  | _ :: _, [] => none
  | wanted :: literal, char :: text =>
      if wanted = char then dropLiteral? literal text else none

/-- A place in a text: the bytes before it and the characters after it. -/
structure Cursor where
  offset : Nat
  rest : List Char
deriving DecidableEq

namespace Cursor

/-- The cursor before the first character. -/
def start (text : String) : Cursor :=
  ⟨0, text.toList⟩

/-- The cursor that has a number of bytes of the text before it. -/
def seek (text : String) (offset : Nat) : Cursor :=
  ⟨offset, dropBytes offset text.toList⟩

/-- Whether no character follows. -/
def atEnd (cursor : Cursor) : Bool :=
  cursor.rest.isEmpty

/-- The text between a cursor and a later one. -/
def textTo (cursor later : Cursor) : String :=
  String.ofList (takeBytes (later.offset - cursor.offset) cursor.rest)

/-- The cursor after the literal, if the literal comes next. -/
def eatLiteral? (cursor : Cursor) (literal : String) : Option Cursor :=
  (dropLiteral? literal.toList cursor.rest).map fun rest =>
    ⟨cursor.offset + literal.utf8ByteSize, rest⟩

/-- The next character and the cursor after it, if there is one and it is accepted. -/
def eatChar? (cursor : Cursor) (accepts : Char → Bool) : Option (Char × Cursor) :=
  match cursor.rest with
  | [] => none
  | char :: rest =>
      if accepts char then some (char, ⟨cursor.offset + char.utf8Size, rest⟩) else none

end Cursor

theorem takeBytes_append_dropBytes (bytes : Nat) (chars : List Char) :
    takeBytes bytes chars ++ dropBytes bytes chars = chars := by
  fun_induction takeBytes bytes chars with
  | case1 => simp [dropBytes]
  | case2 bytes char rest fits ih => simp [dropBytes, fits, ih]
  | case3 bytes char rest fits => simp [dropBytes, fits]

theorem dropLiteral?_eq_some_iff {literal text rest : List Char} :
    dropLiteral? literal text = some rest ↔ text = literal ++ rest := by
  fun_induction dropLiteral? literal text with
  | case1 => simp
  | case2 => simp
  | case3 literal char text ih => simp [ih]
  | case4 wanted literal char text differ =>
      simp only [reduceCtorEq, List.cons_append, List.cons.injEq, false_iff, not_and]
      exact fun same => absurd same.symm differ

end TracedGrammar

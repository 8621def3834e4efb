/-!
# Blank text

The white space characters of Unicode, and the texts that hold nothing else.
-/

namespace TracedGrammar.Text

/-- Whether a character is white space. -/
def isBlankChar (char : Char) : Bool :=
  let code := char.toNat
  code == 0x20 || (0x9 ≤ code && code ≤ 0xd) || code == 0x85 || code == 0xa0 || code == 0x1680
    || (0x2000 ≤ code && code ≤ 0x200a) || code == 0x2028 || code == 0x2029 || code == 0x202f
    || code == 0x205f || code == 0x3000

/-- Whether a text holds nothing but white space. -/
def isBlank (text : String) : Bool :=
  text.toList.all isBlankChar

end TracedGrammar.Text

/-!
# Upper case within ASCII

Names of actions are compared without regard to case, and they are written in ASCII.  So only the
characters whose full upper case is ASCII text matter: the ASCII characters themselves, the
dotless and the long form of two letters, and the ligatures that fall apart into letters.
-/

namespace LinearDialogue.Text

/-- The full upper case of a character, where that is ASCII text. -/
def asciiUpper? (c : Char) : Option (List Char) :=
  if c.toNat < 0x80 then some [c.toUpper]
  else match c.toNat with
    | 0xdf => some ['S', 'S']
    | 0x131 => some ['I']
    | 0x17f => some ['S']
    | 0xfb00 => some ['F', 'F']
    | 0xfb01 => some ['F', 'I']
    | 0xfb02 => some ['F', 'L']
    | 0xfb03 => some ['F', 'F', 'I']
    | 0xfb04 => some ['F', 'F', 'L']
    | 0xfb05 | 0xfb06 => some ['S', 'T']
    | _ => none

/-- The upper case of a text, where that is ASCII. -/
def asciiUpperText? (text : String) : Option String :=
  (text.toList.mapM asciiUpper?).map fun parts => String.ofList parts.flatten

end LinearDialogue.Text

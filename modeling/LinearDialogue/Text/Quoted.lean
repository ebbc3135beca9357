import LinearDialogue.Text.Printable

/-!
# Quoted text

Text as messages quote it: between single quotes, or between double quotes where the text holds
single quotes and no double ones.  The quote in use, the backslash and unprintable characters are
escaped, by a letter for the usual three and by code point in hexadecimal for the rest.
-/

namespace LinearDialogue.Text

/-- The last `length` hexadecimal digits of `n`, in lower case. -/
def hexDigits : Nat → Nat → List Char
  | 0, _ => []
  | length + 1, n => hexDigits length (n / 16) ++ [Nat.digitChar (n % 16)]

def quoteChar (quote c : Char) : List Char :=
  if c = quote ∨ c = '\\' then ['\\', c]
  else if c = '\n' then ['\\', 'n']
  else if c = '\r' then ['\\', 'r']
  else if c = '\t' then ['\\', 't']
  else if isPrintable c then [c]
  else if c.toNat < 0x100 then '\\' :: 'x' :: hexDigits 2 c.toNat
  else if c.toNat < 0x10000 then '\\' :: 'u' :: hexDigits 4 c.toNat
  else '\\' :: 'U' :: hexDigits 8 c.toNat

def enclosingQuote (cs : List Char) : Char :=
  if cs.contains '\'' && !cs.contains '"' then '"' else '\''

def quoted (text : String) : String :=
  let cs := text.toList
  let quote := enclosingQuote cs
  String.ofList (quote :: cs.flatMap (quoteChar quote) ++ [quote])

end LinearDialogue.Text

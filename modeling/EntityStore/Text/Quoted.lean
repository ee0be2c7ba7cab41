import EntityStore.Text.Graphic

/-!
# Quoted text

Text inside a message stands between double quotes.  A quote and a backslash inside it are written
with a backslash, the tab, the line feed, the carriage return and the null character by the letters
`t`, `n`, `r` and the digit `0`, and every other character that is not graphic by its code point in
lower-case hexadecimal digits between braces.
-/

namespace EntityStore.Text

/-- A character written by its code point. -/
def codePoint (c : Char) : List Char :=
  ['\\', 'u', '\x7b'] ++ Nat.toDigits 16 c.toNat ++ ['\x7d']

/-- A character as it stands inside quotes. -/
def quotedChar (c : Char) : List Char :=
  if c = '"' then ['\\', '"']
  else if c = '\\' then ['\\', '\\']
  else if c = '\t' then ['\\', 't']
  else if c = '\n' then ['\\', 'n']
  else if c = '\r' then ['\\', 'r']
  else if c = '\x00' then ['\\', '0']
  else if isGraphic c then [c]
  else codePoint c

/-- Text between double quotes. -/
def quoted (s : String) : String :=
  String.ofList ('"' :: s.toList.flatMap quotedChar ++ ['"'])

end EntityStore.Text

-- Quoted texts. A text in double quotes shows every character: the quote and the backslash
-- stand behind a backslash, a few control characters have a short form, and a character that
-- cannot be seen is given by its number.
import LineLayout.Text.Hidden

namespace LineLayout

namespace Text

/-- The number of a character in hexadecimal between braces. -/
def byNumber (c : Char) : List Char :=
  '\\' :: 'u' :: '\x7b' :: (Nat.toDigits 16 c.toNat ++ ['\x7d'])

/-- A character as it stands between quotes. -/
def quoteChar (c : Char) : List Char :=
  if c = '"' then ['\\', '"']
  else if c = '\\' then ['\\', '\\']
  else if c = '\x00' then ['\\', '0']
  else if c = '\t' then ['\\', 't']
  else if c = '\r' then ['\\', 'r']
  else if c = '\n' then ['\\', 'n']
  else if c.toNat < 0x20 ∨ c.toNat = 0x7f then byNumber c
  else if c.toNat < 0x7f then [c]
  else if isHidden c then byNumber c
  else [c]

/-- The text between quotes. -/
def quote (text : String) : String :=
  String.ofList ('"' :: (text.toList.flatMap quoteChar ++ ['"']))

end Text

end LineLayout

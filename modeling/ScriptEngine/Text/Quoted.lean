import ScriptEngine.Text.Printable

/-!
# Quoted text

A string shown inside a container stands in double quotes. A quote, a backslash and the usual
control characters have short escapes; whatever else has no visible form of its own, or would
combine with the character before it, is written as its code point in braces.
-/

namespace ScriptEngine.Text

/-- A code point escape: lower-case hexadecimal digits in braces. -/
def codePointEscape (c : Char) : List Char :=
  '\\' :: 'u' :: '\x7b' :: (Nat.toDigits 16 c.toNat ++ ['\x7d'])

/-- The characters that stand for `c` inside double quotes. -/
def quoteChar (c : Char) : List Char :=
  if c = '\x00' then ['\\', '0']
  else if c = '\t' then ['\\', 't']
  else if c = '\r' then ['\\', 'r']
  else if c = '\n' then ['\\', 'n']
  else if c = '\\' then ['\\', '\\']
  else if c = '"' then ['\\', '"']
  else if isExtendingMark c then codePointEscape c
  else if isPrintable c then [c]
  else codePointEscape c

/-- A string in double quotes. -/
def quoted (s : String) : String :=
  String.ofList ('"' :: (s.toList.flatMap quoteChar ++ ['"']))

end ScriptEngine.Text

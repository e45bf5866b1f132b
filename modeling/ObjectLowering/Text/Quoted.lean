import ObjectLowering.Text.Combining
import ObjectLowering.Text.Unprintable

/-!
# ObjectLowering.Text.Quoted

A text in double quotes as a report to developers shows it. A quote and a backslash are escaped;
newline, return, tab and the null character have their letters; and whatever could not be seen, or
would run together with the character before it, stands as its code. Everything else stands as it
is.
-/

namespace ObjectLowering.Text

/-- The code of a character in hexadecimal, without leading zeros and in braces. -/
def codeEscape (c : Char) : List Char :=
  '\\' :: 'u' :: '\x7b' :: Nat.toDigits 16 c.toNat ++ ['\x7d']

def quotedChar (c : Char) : List Char :=
  if c = '"' then ['\\', '"']
  else if c = '\\' then ['\\', '\\']
  else if c = '\n' then ['\\', 'n']
  else if c = '\r' then ['\\', 'r']
  else if c = '\t' then ['\\', 't']
  else if c.toNat = 0 then ['\\', '0']
  else if combining.contains c || unprintable.contains c then codeEscape c
  else [c]

def quoted (text : String) : String :=
  "\"" ++ String.ofList (text.toList.flatMap quotedChar) ++ "\""

def quotedList (texts : List String) : String :=
  "[" ++ ", ".intercalate (texts.map quoted) ++ "]"

example : quotedList ["a", "b\""] = "[\"a\", \"b\\\"\"]" := by decide +kernel

end ObjectLowering.Text

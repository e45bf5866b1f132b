import ObjectLowering.Text.Numeral

/-!
# ObjectLowering.Text.Escape

Text inside a C string literal, in printable ASCII only.

* A quote and a backslash are escaped, newline, return and tab have their letters, and any other
  ASCII control is three octal digits.
* Above ASCII a character is a universal character name, `\u` with four digits or `\U` with eight.
  The C1 controls must not be named that way, so each byte of their UTF-8 form is three octal
  digits.

Octal escapes always have three digits, so a digit that follows is not read into one.
-/

namespace ObjectLowering.Text.Escape

open Numeral (fixed)

def octal (byte : Nat) : List Char :=
  '\\' :: fixed 8 3 byte

def escapeChar (c : Char) : List Char :=
  if c = '"' then ['\\', '"']
  else if c = '\\' then ['\\', '\\']
  else if c = '\n' then ['\\', 'n']
  else if c = '\r' then ['\\', 'r']
  else if c = '\t' then ['\\', 't']
  else if c.toNat < 0x20 ∨ c.toNat = 0x7f then octal c.toNat
  else if c.toNat < 0x80 then [c]
  else if c.toNat < 0xa0 then (String.utf8EncodeChar c).flatMap fun byte => octal byte.toNat
  else if c.toNat ≤ 0xffff then '\\' :: 'u' :: fixed 16 4 c.toNat
  else '\\' :: 'U' :: fixed 16 8 c.toNat

/-- The written form of a text, without the surrounding quotes. -/
def escape (text : List Char) : List Char :=
  text.flatMap escapeChar

@[simp] theorem escape_nil : escape [] = [] := rfl

@[simp] theorem escape_cons (c : Char) (text : List Char) :
    escape (c :: text) = escapeChar c ++ escape text := rfl

def escapeString (text : String) : String :=
  String.ofList (escape text.toList)

/-- A string object literal, `@"..."`. -/
def stringLiteral (text : String) : String :=
  "@\"" ++ escapeString text ++ "\""

example : escape ['a', '"', '\n'] = ['a', '\\', '"', '\\', 'n'] := by decide
example : escapeChar 'é' = ['\\', 'u', '0', '0', 'e', '9'] := by decide
example : escapeChar '\x7f' = ['\\', '1', '7', '7'] := by decide

end ObjectLowering.Text.Escape

import Febc.Text.Printable
import Febc.Text.GraphemeExtend

/-!
# Quoted text in messages

A text inside a message stands in double quotes. The quote and the backslash are escaped by a
backslash; NUL, tab, carriage return and line feed take their short escapes (`\0`, `\t`, `\r`,
`\n`); a grapheme extender, or any other character that is not printable, is written as its code
point in hexadecimal, lowercase and without leading zeros, between `\u{` and `}`. Every other
character stands for itself, the apostrophe included.

Main statement: `quoteChar_of_printable`, a printable character that extends no grapheme and
needs no short escape stands for itself.
-/

namespace Febc

namespace Quoted

/-- Hexadecimal digits of a number, lowercase, without leading zeros. -/
def hexDigits (n : Nat) : String :=
  String.ofList (Nat.toDigits 16 n)

/-- The escape that names a code point: `\u{301}`. -/
def codePointEscape (c : Char) : String :=
  "\\u" ++ "\x7b" ++ hexDigits c.toNat ++ "\x7d"

/-- The short escape of a character, if it has one. -/
def shortEscape? (c : Char) : Option String :=
  if c == '\x00' then some "\\0"
  else if c == '\t' then some "\\t"
  else if c == '\r' then some "\\r"
  else if c == '\n' then some "\\n"
  else if c == '\\' then some "\\\\"
  else if c == '"' then some "\\\""
  else none

/-- A character as it stands inside a quoted text. -/
def quoteChar (c : Char) : String :=
  match shortEscape? c with
  | some e => e
  | none =>
    if isGraphemeExtender c || !isPrintable c then codePointEscape c else c.toString

/-- A text in double quotes, each character as `quoteChar` writes it. -/
def quote (text : String) : String :=
  "\"" ++ String.join (text.toList.map quoteChar) ++ "\""

theorem quoteChar_of_printable (c : Char) (hs : shortEscape? c = none)
    (hg : isGraphemeExtender c = false) (hp : isPrintable c = true) :
    quoteChar c = c.toString := by
  simp [quoteChar, hs, hg, hp]

end Quoted

end Febc

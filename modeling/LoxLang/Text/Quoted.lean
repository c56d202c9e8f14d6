/-
LoxLang.Text.Quoted: text with its control characters made visible.

The escaped form writes a backslash twice, newline, tab and carriage return as `\n`, `\t` and `\r`,
and every other unprintable character as `\x`, `\u` or `\U` with two, four or eight hexadecimal
digits.  It is meant to stand between quotes, so the quote it would stand between is escaped too:
the single quote, unless the text holds a single quote and no double one.

* `escape`: the escaped form, without the surrounding quotes.
-/
import LoxLang.Text.Printable

namespace LoxLang.Text

/-- The quote that the escaped form stands between. -/
def quoteFor (cs : List Char) : Char :=
  if cs.contains '\'' ∧ !cs.contains '"' then '"' else '\''

/-- A number in lower-case hexadecimal digits, filled with zeros to a width. -/
def hexText (width n : Nat) : List Char :=
  let ds := Nat.toDigits 16 n
  List.replicate (width - ds.length) '0' ++ ds

/-- The escaped form of one character. -/
def escapeChar (quote c : Char) : List Char :=
  if c = '\\' ∨ c = quote then ['\\', c]
  else if c = '\n' then ['\\', 'n']
  else if c = '\t' then ['\\', 't']
  else if c = '\r' then ['\\', 'r']
  else if isPrintable c then [c]
  else if c.toNat < Nat.pow 2 8 then '\\' :: 'x' :: hexText 2 c.toNat
  else if c.toNat < Nat.pow 2 16 then '\\' :: 'u' :: hexText 4 c.toNat
  else '\\' :: 'U' :: hexText 8 c.toNat

/-- The escaped form of a text. -/
def escape (cs : List Char) : List Char := cs.flatMap (escapeChar (quoteFor cs))

end LoxLang.Text

/-
# Transact.Text.Quoted -- text and characters between quotes, for messages

A quoted form names every character that could be misread: the usual short escapes, the quote in
use, and `\u{hex}` for what `isUnprintable` lists.  Everything else stands as it is.
-/
import Transact.Text.Unprintable

namespace Transact.Text

set_option autoImplicit false

/-- The digits of `n` in base sixteen, lower case, without leading zeros. -/
def hexDigits (n : Nat) : String := String.ofList (Nat.toDigits 16 n)

/-- How `c` is written between two marks `quote`. -/
def escapeChar (quote c : Char) : String :=
  if c = '\t' then "\\t"
  else if c = '\r' then "\\r"
  else if c = '\n' then "\\n"
  else if c = '\\' then "\\\\"
  else if c = '\x00' then "\\0"
  else if c = quote then String.ofList ['\\', c]
  else if isUnprintable c then "\\u\x7b" ++ hexDigits c.toNat ++ "\x7d"
  else c.toString

/-- `text` between double quotes. -/
def quoted (text : String) : String :=
  "\"" ++ String.join (text.toList.map (escapeChar '"')) ++ "\""

/-- `c` between single quotes. -/
def quotedChar (c : Char) : String := "'" ++ escapeChar '\'' c ++ "'"

end Transact.Text

import MethodLift.Text.HiddenRanges
import MethodLift.Text.WordChar

/-!
# Quoted text

How a message shows a single character or a text: between quotes, with the usual escapes, and
characters by their numbers where they would not be seen.
-/

namespace MethodLift.Text

/-- The lower-case hexadecimal digits of a number, without leading zeros. -/
def hexDigits (n : Nat) : String := String.ofList (Nat.toDigits 16 n)

/-- Whether a quoted character is shown by number: an ASCII control, or a character of the table. -/
def isHidden (c : Char) : Bool :=
  if c.toNat < 0x80 then c.toNat < 0x20 || c.toNat == 0x7f else inRanges hiddenRanges c.toNat

/-- A character as it stands between single quotes. -/
def escapeChar (c : Char) : String :=
  if c == '\x00' then "\\0"
  else if c == '\t' then "\\t"
  else if c == '\r' then "\\r"
  else if c == '\n' then "\\n"
  else if c == '\'' then "\\'"
  else if c == '\\' then "\\\\"
  else if isHidden c then "\\u\x7b" ++ hexDigits c.toNat ++ "\x7d"
  else c.toString

/-- The character in single quotes. -/
def quoteChar (c : Char) : String := "'" ++ escapeChar c ++ "'"

/-- A character as it stands between double quotes. -/
def escapeInText (c : Char) : String :=
  if c == '"' then "\\\"" else if c == '\'' then "'" else escapeChar c

/-- The text in double quotes. -/
def quoteText (text : String) : String :=
  "\"" ++ String.join (text.toList.map escapeInText) ++ "\""

end MethodLift.Text

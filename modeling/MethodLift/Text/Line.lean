import MethodLift.Text.Bytes

/-!
# Physical lines

The lines of a text as an editor counts them: each ends just after a line feed, the last one at the
end of the text.  A carriage return is a character like any other here, so that a line that ends in
both ends after both.
-/

namespace MethodLift.Text

/-- The part of the line before an offset that lies on the same line. -/
def lineBefore (cs : List Char) (offset : Nat) : List Char :=
  ((takeBytes cs offset).reverse.takeWhile (· != '\n')).reverse

/-- Where the line around an offset starts. -/
def lineStart (cs : List Char) (offset : Nat) : Nat := offset - width (lineBefore cs offset)

/-- Where the line around an offset ends, its line feed included. -/
def lineEnd (cs : List Char) (offset : Nat) : Nat :=
  let rest := dropBytes cs offset
  let line := rest.takeWhile (· != '\n')
  offset + width line + (if line.length < rest.length then 1 else 0)

/-- Spaces and tabs indent. -/
def isIndent (c : Char) : Bool := c == ' ' || c == '\t'

/-- The blanks at the front of the line around an offset. -/
def indentation (cs : List Char) (offset : Nat) : List Char :=
  (dropBytes cs (lineStart cs offset)).takeWhile isIndent

/-- Whether only blanks precede an offset on its line. -/
def startsLine (cs : List Char) (offset : Nat) : Bool := (lineBefore cs offset).all isIndent

/-- Whether a carriage return and a line feed stand side by side in the text. -/
def hasCarriageReturns : List Char → Bool
  | '\r' :: '\n' :: _ => true
  | _ :: cs => hasCarriageReturns cs
  | [] => false

/-- The line break that is used in the text: with a carriage return if there is any such break. -/
def lineBreak (cs : List Char) : List Char :=
  if hasCarriageReturns cs then ['\r', '\n'] else ['\n']

end MethodLift.Text

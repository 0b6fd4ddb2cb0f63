import MethodLift.Syntax.Lexing
import MethodLift.Text.Line

/-!
# Taking indentation away

A block of lines moves to the left by removing blanks at the front of its lines, except of those
that begin inside a string, where blanks are text.
-/

namespace MethodLift.Text

open MethodLift.Syntax

/-- The lines of a text with their line feeds. -/
def linesWithFeed : List Char → List (List Char)
  | [] => []
  | c :: cs =>
    match linesWithFeed cs with
    | [] => [[c]]
    | line :: lines => if c == '\n' then [c] :: line :: lines else (c :: line) :: lines

/-- Together the lines are the text. -/
theorem flatten_linesWithFeed (cs : List Char) : (linesWithFeed cs).flatten = cs := by
  induction cs with
  | nil => rfl
  | cons c cs ih =>
    unfold linesWithFeed
    split
    · next h => simp_all
    · next line lines h =>
      rw [h] at ih
      split <;> simp_all

/-- A line without up to `width` blanks at its front. -/
def dropIndent : Nat → List Char → List Char
  | n + 1, c :: cs => if isIndent c then dropIndent n cs else c :: cs
  | _, cs => cs

/-- The spans of the string tokens of a text. -/
def stringSpans (text : String) : List Span :=
  ((lex text).tokens.filter fun t => t.kind == .string || t.kind == .fstring).map (·.span)

/-- Whether a line that begins at an offset begins inside a string. -/
def beginsInString (strings : List Span) (offset : Nat) : Bool :=
  strings.any fun s => s.start < offset && offset < s.stop

/-- Removes the indentation of lines of which the first one begins at `offset`. -/
def dedentLines (strings : List Span) (columns offset : Nat) : List (List Char) → List Char
  | [] => []
  | line :: lines =>
    (if beginsInString strings offset then line else dropIndent columns line)
      ++ dedentLines strings columns (offset + Text.width line) lines

/-- Moves a block of lines to the left by a number of columns. -/
def dedent (block : String) (columns : Nat) : String :=
  if columns == 0 then block
  else
    String.ofList (dedentLines (stringSpans block) columns 0 (linesWithFeed block.toList))

end MethodLift.Text

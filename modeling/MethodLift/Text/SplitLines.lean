/-!
# Lines with their line breaks

The lines of a text where each of carriage return and line feed, alone or the two together, ends a
line.  Lines keep what ends them, so that nothing is lost.
-/

namespace MethodLift.Text

/-- The lines of a text, each with the line break that ends it.  `line` holds the characters of the
line that has begun, the last one first. -/
def splitLinesAfter (line : List Char) : List Char → List (List Char)
  | [] => if line.isEmpty then [] else [line.reverse]
  | '\r' :: '\n' :: cs => ('\n' :: '\r' :: line).reverse :: splitLinesAfter [] cs
  | c :: cs =>
    if c == '\r' || c == '\n' then (c :: line).reverse :: splitLinesAfter [] cs
    else splitLinesAfter (c :: line) cs

/-- The lines of a text, each with the line break that ends it. -/
def splitLines (cs : List Char) : List (List Char) := splitLinesAfter [] cs

/-- Together the lines are the text. -/
theorem flatten_splitLinesAfter (line cs : List Char) :
    (splitLinesAfter line cs).flatten = line.reverse ++ cs := by
  fun_induction splitLinesAfter line cs <;> simp_all

theorem flatten_splitLines (cs : List Char) : (splitLines cs).flatten = cs := by
  simp [splitLines, flatten_splitLinesAfter]

end MethodLift.Text

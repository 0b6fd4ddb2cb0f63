import MethodLift.Report.LineDiff
import MethodLift.Text.SplitLines

/-!
# Unified diffs

The text that shows how a file changes: hunks of changed lines with a few shared lines around them,
each under a header with the lines that it covers on both sides.
-/

namespace MethodLift.Report

/-- How many shared lines are shown on each side of a change. -/
def contextLines : Nat := 3

/-- Shortens the shared lines at the start of a difference to the context of the first change. -/
def trimFirst (n : Nat) : List Run → List Run
  | r :: rs => if r.isEqual then r.shrinkStart (r.oldCount - n) :: rs else r :: rs
  | [] => []

/-- Shortens the shared lines at the end of a difference to the context of the last change. -/
def trimLast (n : Nat) : List Run → List Run
  | [] => []
  | [r] => if r.isEqual then [r.shrinkEnd (r.oldCount - n)] else [r]
  | r :: rs => r :: trimLast n rs

/-- Cuts a difference wherever more lines are shared than two changes need for their context.  The
hunk that has begun is given with its last run first. -/
def hunksAfter (n : Nat) (begun : List Run) : List Run → List (List Run)
  | [] => if begun.all Run.isEqual && begun.length ≤ 1 then [] else [begun.reverse]
  | r :: rs =>
    if r.isEqual && 2 * n < r.oldCount then
      (r.shrinkEnd (r.oldCount - n) :: begun).reverse
        :: hunksAfter n [r.shrinkStart (r.oldCount - n)] rs
    else hunksAfter n (r :: begun) rs

/-- The hunks of a difference with `n` lines of context. -/
def hunks (n : Nat) (runs : List Run) : List (List Run) :=
  if runs.isEmpty then [] else hunksAfter n [] (trimLast n (trimFirst n runs))

/-- Lines as a hunk's header counts them: the number of the first one and how many there are.  A
single line needs no count, and no lines are counted from the line before. -/
def lineRange (start stop : Nat) : String :=
  let count := stop - start
  if count == 1 then toString (start + 1)
  else if count == 0 then toString start ++ ",0"
  else toString (start + 1) ++ "," ++ toString count

/-- The header of a hunk. -/
def hunkHeader (hunk : List Run) : String :=
  let first := hunk.headD default
  let last := hunk.getLastD default
  "@@ -" ++ lineRange first.old (last.old + last.oldCount) ++ " +"
    ++ lineRange first.new (last.new + last.newCount) ++ " @@\n"

/-- Whether a line ends in a line break. -/
def hasLineBreak (line : String) : Bool :=
  match line.toList.getLast? with
  | some c => c == '\n' || c == '\r'
  | none => false

/-- A line of a hunk with its mark. -/
def markedLine (mark : String) (line : String) : String :=
  mark ++ line ++ if hasLineBreak line then "" else "\n\\ No newline at end of file\n"

/-- Some lines with a mark each. -/
def markedLines (mark : String) (lines : Array String) (start count : Nat) : String :=
  String.join ((lines.extract start (start + count)).toList.map (markedLine mark))

/-- The lines of a run. -/
def runText (old new : Array String) (r : Run) : String :=
  if r.isEqual then markedLines " " old r.old r.oldCount
  else markedLines "-" old r.old r.oldCount ++ markedLines "+" new r.new r.newCount

/-- A hunk with its header. -/
def hunkText (old new : Array String) (hunk : List Run) : String :=
  hunkHeader hunk ++ String.join (hunk.map (runText old new))

/-- The lines of a text. -/
def linesOf (text : String) : Array String :=
  ((Text.splitLines text.toList).map String.ofList).toArray

/-- The unified diff of a file; empty if nothing changes. -/
def unifiedDiff (file oldText newText : String) : String :=
  let old := linesOf oldText
  let new := linesOf newText
  match hunks contextLines (lineDiff old new) with
  | [] => ""
  | hs =>
    "--- a/" ++ file ++ "\n+++ b/" ++ file ++ "\n" ++ String.join (hs.map (hunkText old new))

end MethodLift.Report

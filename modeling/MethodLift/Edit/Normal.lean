import MethodLift.Edit.Basic

/-!
# The normal form of edits

A list of edits is normal if it is sorted by file and position, holds no edit twice, one insertion
at an offset at most, and no two edits that overlap.  `normalize` brings a list into that form or
says what is in the way.  Insertions at one offset become one, in the order in which they were
given.
-/

namespace MethodLift.Edit

/-- Merges sorted edits into the normal form, `previous` being the last edit of what is done. -/
def mergeAfter (previous : Edit) : List Edit → Except EditError (List Edit)
  | [] => .ok [previous]
  | e :: es =>
    if e.span.stop < e.span.start then .error (.invalidRange e.file e.span)
    else if previous.file != e.file then (previous :: ·) <$> mergeAfter e es
    else if previous == e then mergeAfter previous es
    else if previous.span == e.span && e.span.isEmpty then
      mergeAfter { previous with text := previous.text ++ e.text } es
    else if e.span.start < previous.span.stop || previous.span == e.span then
      .error (.overlapping e.file previous.span e.span)
    else (previous :: ·) <$> mergeAfter e es

/-- Merges sorted edits into the normal form. -/
def mergeSorted : List Edit → Except EditError (List Edit)
  | [] => .ok []
  | e :: es =>
    if e.span.stop < e.span.start then .error (.invalidRange e.file e.span) else mergeAfter e es

/-- The normal form of edits, unless a span runs backwards or two edits overlap. -/
def normalize (edits : List Edit) : Except EditError (List Edit) := mergeSorted (sort edits)

end MethodLift.Edit

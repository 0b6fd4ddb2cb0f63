import MethodLift.Text.Bytes

/-!
# Edits

An edit replaces the text at a span of a file.  An empty span is an insertion, an empty replacement
a deletion.  Edits are always meant against the text as it was before all of them.
-/

namespace MethodLift

/-- The replacement of the text at a span of a file. -/
structure Edit where
  file : String
  span : Span
  text : String
deriving DecidableEq, Repr, Inhabited

/-- Why edits cannot be applied. -/
inductive EditError
  /-- A span that runs backwards, begins before the end of the edit before it, or cuts a
  character. -/
  | invalidRange (file : String) (span : Span)
  | overlapping (file : String) (first second : Span)
  | outOfBounds (file : String) (span : Span) (size : Nat)
  | unknownFile (file : String)
deriving DecidableEq, Repr, Inhabited

namespace EditError

/-- A span as the messages below show it. -/
def spanText (s : Span) : String :=
  "TextRange \x7b start: " ++ toString s.start ++ ", end: " ++ toString s.stop ++ " \x7d"

/-- The wording of an error. -/
def message : EditError → String
  | invalidRange file span => "invalid text range " ++ spanText span ++ " in '" ++ file ++ "'"
  | overlapping file first second =>
    "overlapping edits in '" ++ file ++ "': " ++ spanText first ++ " overlaps " ++ spanText second
  | outOfBounds file span size =>
    "text edit range " ++ spanText span ++ " is outside the file bounds (len=" ++ toString size
      ++ ") in '" ++ file ++ "'"
  | unknownFile file => "edit targets unknown file '" ++ file ++ "'"

end EditError

namespace Edit

/-- Puts text at an offset. -/
def insert (file : String) (offset : Nat) (text : String) : Edit := ⟨file, .point offset, text⟩

/-- Removes the text at a span. -/
def delete (file : String) (span : Span) : Edit := ⟨file, span, ""⟩

/-- Whether an edit comes no later than another one of any file. -/
def notAfter (a b : Edit) : Bool :=
  a.file < b.file || (a.file == b.file && a.span.notAfter b.span)

/-- Edits in the order of their spans; those at one span keep the order they were given in. -/
def sortBySpan (edits : List Edit) : List Edit :=
  edits.mergeSort fun a b => a.span.notAfter b.span

/-- Edits by file, in the order of the files, and within a file by span.  Edits at one span keep the
order they were given in. -/
def sort (edits : List Edit) : List Edit := edits.mergeSort notAfter

/-- Gathers neighbours of one file. -/
def group : List Edit → List (String × List Edit)
  | [] => []
  | e :: es =>
    match group es with
    | (file, others) :: groups =>
      if file == e.file then (file, e :: others) :: groups
      else (e.file, [e]) :: (file, others) :: groups
    | [] => [(e.file, [e])]

/-- The edits of each file, files and edits in order. -/
def byFile (edits : List Edit) : List (String × List Edit) := group (sort edits)

end Edit

end MethodLift

import MethodLift.Edit.Basic

/-!
# Applying edits to a text

The edits are applied in one pass from the front: what lies between two edits is copied, and each
edit puts its text in the place of its span.
-/

namespace MethodLift.Edit

/-- Applies edits in order to what follows the offset `cursor` of a text of `size` bytes. -/
def applyFrom (text : List Char) (size cursor : Nat) : List Edit → Except EditError (List Char)
  | [] => .ok (Text.dropBytes text cursor)
  | e :: es =>
    if size < e.span.stop || e.span.stop < e.span.start then
      .error (.outOfBounds e.file e.span size)
    else if e.span.start < cursor || !Text.isBoundary text e.span.start
        || !Text.isBoundary text e.span.stop then
      .error (.invalidRange e.file e.span)
    else do
      let rest ← applyFrom text size e.span.stop es
      return Text.slice text ⟨cursor, e.span.start⟩ ++ e.text.toList ++ rest

/-- Applies edits, which may come in any order, to a text.  Insertions at one offset are put there
in the order given. -/
def apply (text : String) (edits : List Edit) : Except EditError String :=
  String.ofList <$> applyFrom text.toList (Text.width text.toList) 0 (sortBySpan edits)

end MethodLift.Edit

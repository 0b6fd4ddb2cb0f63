import MethodLift.Edit.Basic
import MethodLift.Lift.Target
import MethodLift.Method.Function
import MethodLift.Text.Whitespace

/-!
# Moving the method

The lines of the method leave the class, with the blank lines that set it apart, and the new
function is put behind the statement of the module's body that contains the class.
-/

namespace MethodLift.Lift

open MethodLift.Syntax

/-- Whether a line starts at an offset and is blank. -/
def isBlankLine (text : List Char) (start : Nat) : Bool :=
  start < Text.width text
    && (Text.slice text ⟨start, Text.lineEnd text start⟩).all Text.isWhitespace

/-- Where the blank lines directly before the line at an offset start, among at most `lines`. -/
def skipBlankBefore (text : List Char) (start : Nat) : Nat → Nat
  | 0 => start
  | lines + 1 =>
    let previous := Text.lineStart text (start - 1)
    if start > 0 && isBlankLine text previous then skipBlankBefore text previous lines else start

/-- Where the blank lines from an offset on end, among at most `lines`. -/
def skipBlankAfter (text : List Char) (start : Nat) : Nat → Nat
  | 0 => start
  | lines + 1 =>
    if isBlankLine text start then skipBlankAfter text (Text.lineEnd text start) lines else start

/-- Takes the method out of its class.  A class that has nothing else gets a `pass`. -/
def removal (file : String) (text : List Char) (t : LiftTarget) : Edit :=
  let span := t.method.mark.span
  let start := Text.lineStart text span.start
  let stop := Text.lineEnd text span.stop
  if t.class_.body.length == 1 then
    ⟨file, ⟨start, stop⟩,
      String.ofList (Text.indentation text span.start ++ "pass".toList ++ Text.lineBreak text)⟩
  else if t.class_.body.getLast?.any (·.serial == t.method.mark.serial) then
    .delete file ⟨skipBlankBefore text start (text.length + 1), stop⟩
  else .delete file ⟨start, skipBlankAfter text stop (text.length + 1)⟩

/-- Puts the new function behind the line at an offset, with two blank lines before it. -/
def insertion (file : String) (text : List Char) (after : Nat) (f : NewFunction) : Edit :=
  let lineBreak := String.ofList (Text.lineBreak text)
  let offset := Text.lineEnd text after
  let ending :=
    if (Text.takeBytes text offset).getLast? == some '\n' then "" else lineBreak
  .insert file offset (ending ++ lineBreak ++ lineBreak ++ f.text ++ lineBreak)

end MethodLift.Lift

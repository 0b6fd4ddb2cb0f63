import MethodLift.Report.UnifiedDiff
import MethodLift.Snapshot

/-!
# Previews

What edits would change, file by file, before anything is written.
-/

namespace MethodLift

/-- What edits make of one file. -/
structure FilePreview where
  file : String
  modified : String
  diff : String
  editCount : Nat
deriving DecidableEq, Repr, Inhabited

/-- The files that edits change, and the number of all edits, those included that change nothing. -/
structure Preview where
  files : List FilePreview
  editCount : Nat
deriving DecidableEq, Repr, Inhabited

namespace Preview

/-- All diffs, in the order of the files. -/
def diff (p : Preview) : String := String.join (p.files.map (·.diff))

/-- The snapshot of the files that have edits. -/
def touched (s : Snapshot) : List (String × List Edit) → Except EditError Snapshot
  | [] => .ok ⟨[]⟩
  | (path, _) :: groups => do
    let some text := s.text? path | .error (.unknownFile path)
    let rest ← touched s groups
    return ⟨(path, text) :: rest.files⟩

/-- The preview of one file; none if its text stays as it is. -/
def file? (after : Snapshot) (edits : List Edit) (path before : String) : Option FilePreview :=
  let modified := (after.text? path).getD ""
  if before == modified then none
  else some ⟨path, modified, Report.unifiedDiff path before modified,
    edits.countP (·.file == path)⟩

/-- The preview of edits against a snapshot. -/
def ofEdits (s : Snapshot) (edits : List Edit) : Except EditError Preview := do
  let normal ← Edit.normalize edits
  let before ← touched s (Edit.byFile normal)
  let after ← before.apply normal
  return ⟨before.files.filterMap fun (path, text) => file? after normal path text, normal.length⟩

end Preview

end MethodLift

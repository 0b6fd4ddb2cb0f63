import MethodLift.Edit.Apply
import MethodLift.Edit.Normal

/-!
# Snapshots of files

The texts of some files at one moment, in the order of their paths, and what edits make of them.
-/

namespace MethodLift

/-- Files with their texts, ordered by path, each path once. -/
structure Snapshot where
  files : List (String × String)
deriving DecidableEq, Repr, Inhabited

namespace Snapshot

/-- The files, the last text of a path counting, in the order of their paths. -/
def insertFile (path text : String) : List (String × String) → List (String × String)
  | [] => [(path, text)]
  | (p, t) :: rest =>
    if path < p then (path, text) :: (p, t) :: rest
    else if path == p then (path, text) :: rest
    else (p, t) :: insertFile path text rest

/-- A snapshot of files that come in any order; of two texts of one path the later one counts. -/
def ofList (files : List (String × String)) : Snapshot :=
  ⟨files.foldl (fun sorted (path, text) => insertFile path text sorted) []⟩

/-- The paths in order. -/
def paths (s : Snapshot) : List String := s.files.map (·.1)

/-- The text of a file. -/
def text? (s : Snapshot) (path : String) : Option String := s.files.lookup path

/-- The snapshot with another text of a file. -/
def set (s : Snapshot) (path text : String) : Snapshot := ⟨insertFile path text s.files⟩

/-- Applies the edits of each file in turn. -/
def applyGroups (s : Snapshot) : List (String × List Edit) → Except EditError Snapshot
  | [] => .ok s
  | (path, edits) :: groups => do
    let some text := s.text? path | .error (.unknownFile path)
    let updated ← Edit.apply text edits
    applyGroups (s.set path updated) groups

/-- The snapshot after edits. -/
def apply (s : Snapshot) (edits : List Edit) : Except EditError Snapshot := do
  s.applyGroups (Edit.byFile (← Edit.normalize edits))

/-- The files whose text another snapshot of the same files changes, with their new texts. -/
def changed (before after : Snapshot) : List (String × String) :=
  after.files.filter fun (path, text) => before.text? path != some text

end Snapshot

end MethodLift

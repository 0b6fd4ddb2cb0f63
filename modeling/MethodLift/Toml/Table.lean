import MethodLift.Toml.Value

/-!
# Building tables

A document builds its tables entry by entry: by headers, which lead to a table from the top, and by
dotted keys, which lead to a table from where they stand.  A table is stated once: a second header
for it, a second entry of a name, and a dotted key into a table that is complete are refused.
-/

namespace MethodLift.Toml

/-- A table under construction. -/
structure Table where
  kind : TableKind
  /-- The entries in the order in which they came. -/
  entries : List (String × Value)
deriving Inhabited

namespace Table

/-- The table as a value. -/
def value (t : Table) : Value := .table t.kind t.entries

/-- The entry of a name. -/
def get? (t : Table) (key : String) : Option Value := t.entries.lookup key

/-- The table with another value of an entry, or with a new entry at its end. -/
def set (t : Table) (key : String) (v : Value) : Table :=
  if (t.get? key).isSome then
    { t with entries := t.entries.map fun (k, old) => (k, if k == key then v else old) }
  else { t with entries := t.entries ++ [(key, v)] }

/-- The table without an entry. -/
def erase (t : Table) (key : String) : Table :=
  { t with entries := t.entries.filter (·.1 != key) }

/-- Changes the table that a path leads to from here, with tables created on the way as needed.
`byKey` tells the dotted keys of entries from headers. -/
def change (byKey : Bool) (f : Table → Option Table) : List String → Table → Option Table
  | [], t => f t
  | key :: path, t =>
    match t.get? key with
    | none => do
      let inner ← change byKey f path ⟨if byKey then .dotted else .passed, []⟩
      return t.set key inner.value
    | some (.table kind entries) =>
      if kind == .inBraces || (byKey && kind == .stated) then none
      else do return t.set key (← change byKey f path ⟨kind, entries⟩).value
    | some (.tables elements) =>
      match elements.getLast? with
      | some (.table kind entries) => do
        let inner ← change byKey f path ⟨kind, entries⟩
        return t.set key (.tables (elements.dropLast ++ [inner.value]))
      | _ => none
    | some _ => none

/-- Adds an entry that a dotted key, its last part apart from the others, leads to. -/
def addEntry (path : List String) (key : String) (v : Value) (t : Table) : Option Table :=
  change true (fun inner =>
    if (inner.kind == .dotted) == path.isEmpty || (inner.get? key).isSome then none
    else some (inner.set key v)) path t

end Table

/-! ## Documents -/

/-- A document as far as it is read: the tables that are complete, and the one whose entries are
being read, with the path of its header. -/
structure Progress where
  root : Table
  current : Table
  /-- The path of the header and its last part; `none` for the entries before all headers. -/
  header : Option (List String × String)
  /-- Whether the header adds an element to a list of tables. -/
  isElement : Bool
deriving Inhabited

namespace Progress

/-- Before anything is read. -/
def start : Progress := ⟨⟨.stated, []⟩, ⟨.stated, []⟩, none, false⟩

/-- Adds an element to the list of tables of a name. -/
def addElement (key : String) (element : Table) (parent : Table) : Option Table :=
  match parent.get? key with
  | none => some (parent.set key (.tables [element.value]))
  | some (.tables elements) => some (parent.set key (.tables (elements ++ [element.value])))
  | some _ => none

/-- Puts the table whose entries were read into its place. -/
def finish? (p : Progress) : Option Table :=
  match p.header with
  | none => some p.current
  | some (path, key) =>
    Table.change false (fun parent =>
      if p.isElement then addElement key p.current parent
      else some (parent.set key p.current.value)) path p.root

/-- The table at the end of a path, if all on the way are tables. -/
def find? : List String → Table → Option Table
  | [], t => some t
  | key :: path, t =>
    match t.get? key with
    | some (.table kind entries) => find? path ⟨kind, entries⟩
    | some (.tables elements) =>
      match elements.getLast? with
      | some (.table kind entries) => find? path ⟨kind, entries⟩
      | _ => none
    | _ => none

/-- Opens the table of a header.  A table that was passed on the way to others is taken up where it
was left, and moves behind the entries beside it. -/
def openTable? (root : Table) (path : List String) (key : String) : Option Progress := do
  let root ← Table.change false some path root
  let parent ← find? path root
  match parent.get? key with
  | none => return ⟨root, ⟨.stated, []⟩, some (path, key), false⟩
  | some (.table .passed entries) =>
    let root ← Table.change false (fun t => some (t.erase key)) path root
    return ⟨root, ⟨.stated, entries⟩, some (path, key), false⟩
  | some _ => none

/-- Opens an element of a list of tables. -/
def openElement? (root : Table) (path : List String) (key : String) : Option Progress := do
  let root ← Table.change false some path root
  let parent ← find? path root
  match parent.get? key with
  | none | some (.tables _) => return ⟨root, ⟨.stated, []⟩, some (path, key), true⟩
  | some _ => none

/-- Takes a header. -/
def header? (p : Progress) (isElement : Bool) (path : List String) (key : String) :
    Option Progress := do
  let root ← p.finish?
  if isElement then openElement? root path key else openTable? root path key

/-- Takes an entry. -/
def entry? (p : Progress) (path : List String) (key : String) (v : Value) : Option Progress := do
  return { p with current := ← p.current.addEntry path key v }

end Progress

end MethodLift.Toml

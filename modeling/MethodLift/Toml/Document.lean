import MethodLift.Toml.Scalar
import MethodLift.Toml.Table

/-!
# TOML documents

Reads the table of entries that a TOML text (version 1.0) says.  Arrays and tables in braces may be
nested to a limit, and so may the parts of dotted keys.
-/

namespace MethodLift.Toml

/-- What reads something off the front of a text. -/
abbrev Reader (α : Type) := List Char → Option (α × List Char)

/-! ## Keys -/

/-- A character of a key without quotes. -/
def isBareKeyChar (c : Char) : Bool := c.isAlphanum || c == '_' || c == '-'

/-- Reads one part of a key. -/
def keyPart? (cs : List Char) : Option (String × List Char) :=
  match cs with
  | '"' :: rest => (basicString? rest).map fun (s, rest) => (String.ofList s, rest)
  | '\'' :: rest => (literalString? rest).map fun (s, rest) => (String.ofList s, rest)
  | _ =>
    let part := cs.takeWhile isBareKeyChar
    if part.isEmpty then none else some (String.ofList part, cs.drop part.length)

/-- How deep things may be nested, and how long keys may be, before a document is refused. -/
def nestingLimit : Nat := 80

/-- Reads a dotted key of at most `parts` parts: those before the last one, and the last one. -/
def keyParts? (cs : List Char) : Nat → Option ((List String × String) × List Char)
  | 0 => none
  | parts + 1 => do
    let (first, rest) ← keyPart? (skipBlanks cs)
    match skipBlanks rest with
    | '.' :: rest =>
      let ((path, last), rest) ← keyParts? rest parts
      return ((first :: path, last), rest)
    | rest => return (([], first), rest)

/-- Reads a dotted key with the blanks around it. -/
def key? : Reader (List String × String) := fun cs => keyParts? cs (nestingLimit - 1)

/-! ## Values -/

/-- Reads the elements of an array up to the bracket that closes it; there are fewer than
`bound`. -/
def elements? (value : Reader Value) (cs : List Char) : Nat → Option (List Value × List Char)
  | 0 => none
  | bound + 1 =>
    match skipSpace cs cs.length with
    | ']' :: rest => some ([], rest)
    | rest => do
      let (v, rest) ← value rest
      match skipSpace rest rest.length with
      | ',' :: rest =>
        let (vs, rest) ← elements? value rest bound
        return (v :: vs, rest)
      | ']' :: rest => return ([v], rest)
      | _ => none

/-- Reads a key, an equals sign and a value. -/
def entry? (value : Reader Value) (cs : List Char) :
    Option ((List String × String × Value) × List Char) := do
  let ((path, key), rest) ← key? cs
  let (v, rest) ← value (skipBlanks (← char? '=' rest))
  return ((path, key, v), rest)

/-- Reads entries up to the brace that closes their table; there are fewer than `bound`. -/
def inlineEntries? (value : Reader Value) (t : Table) (cs : List Char) :
    Nat → Option (Table × List Char)
  | 0 => none
  | bound + 1 => do
    let ((path, key, v), rest) ← entry? value cs
    let t ← t.addEntry path key v
    match skipBlanks rest with
    | ',' :: rest => inlineEntries? value t rest bound
    | '}' :: rest => return (t, rest)
    | _ => none

/-- Reads a table from behind the brace that opens it. -/
def inlineTable? (value : Reader Value) (cs : List Char) : Option (Value × List Char) :=
  match skipBlanks cs with
  | '}' :: rest => some (.table .inBraces [], rest)
  | rest => do
    let (t, rest) ← inlineEntries? value ⟨.inBraces, []⟩ rest (rest.length + 1)
    return (.table .inBraces t.entries, rest)

/-- Reads a value that contains others to at most the given depth. -/
def value? : Nat → Reader Value
  | 0, cs => match cs with
    | '[' :: _ | '{' :: _ => none
    | _ => scalar? cs
  | depth + 1, cs => match cs with
    | '[' :: rest => do
      let (vs, rest) ← elements? (value? depth) rest (rest.length + 1)
      return (.array vs, rest)
    | '{' :: rest => inlineTable? (value? depth) rest
    | _ => scalar? cs

/-! ## Lines -/

/-- Reads a header from behind its first bracket. -/
def header? (p : Progress) (cs : List Char) : Option (Progress × List Char) :=
  match cs with
  | '[' :: rest => do
    let ((path, key), rest) ← key? rest
    let rest ← lineRest? (← char? ']' (← char? ']' rest))
    return (← p.header? true path key, rest)
  | _ => do
    let ((path, key), rest) ← key? cs
    let rest ← lineRest? (← char? ']' rest)
    return (← p.header? false path key, rest)

/-- Reads the lines of a document, of which there are fewer than `bound`. -/
def lines? (p : Progress) (cs : List Char) : Nat → Option Progress
  | 0 => none
  | bound + 1 =>
    match skipBlanks cs with
    | [] => some p
    | '[' :: rest => do
      let (p, rest) ← header? p rest
      lines? p rest bound
    | c :: rest => do
      if c == '#' || c == '\n' || c == '\r' then
        lines? p (← lineRest? (c :: rest)) bound
      else
        let ((path, key, v), rest) ← entry? (value? (nestingLimit - 1)) (c :: rest)
        lines? (← p.entry? path key v) (← lineRest? rest) bound

/-- The text after a byte order mark, if it starts with one. -/
def skipMark : List Char → List Char
  | '\ufeff' :: rest => rest
  | cs => cs

/-- The entries of a document; `none` if the text is not TOML. -/
def read? (text : String) : Option (List (String × Value)) := do
  let cs := skipMark text.toList
  let p ← lines? .start cs (cs.length + 1)
  return (← p.finish?).entries

end MethodLift.Toml

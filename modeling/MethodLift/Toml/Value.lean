import MethodLift.Decimal.Binary64

/-!
# TOML values

What a TOML document says, with tables as lists of entries in the order in which they were written.
A table remembers how it came about, because that decides whether the document may still add to it.
Of a date or a time it is only kept that it is one.
-/

namespace MethodLift.Toml

/-- How a table came about. -/
inductive TableKind
  /-- By a header of its own, or as the whole document. -/
  | stated
  /-- On the way to the table of a header. -/
  | passed
  /-- By a dotted key. -/
  | dotted
  /-- In braces, complete as it stands. -/
  | inBraces
deriving DecidableEq, Repr, Inhabited

/-- A value.  Lists of tables that have headers of their own are told apart from other lists, since
only they can grow. -/
inductive Value
  | string (text : String)
  | integer (value : Int)
  | float (value : Binary64)
  | boolean (value : Bool)
  | dateTime
  | array (elements : List Value)
  | tables (elements : List Value)
  | table (kind : TableKind) (entries : List (String × Value))
deriving Inhabited

end MethodLift.Toml

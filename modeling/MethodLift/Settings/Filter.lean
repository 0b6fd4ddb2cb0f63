import MethodLift.Decimal.Shortest
import MethodLift.Text.Bytes
import MethodLift.Text.Whitespace
import MethodLift.Text.WordChar

/-!
# Log filters

A filter says which log messages are written, by directives `target[span{field=value}]=level`, of
which every part may be missing.  A filter keeps its directives ordered, the most specific one
first, and of two that speak of the same messages the later one.  Directives that depend on spans or
on the values of fields are kept apart from the others.
-/

namespace MethodLift.LogFilter

/-- How much is written. -/
inductive Level
  | off
  | error
  | warn
  | info
  | debug
  | trace
deriving DecidableEq, Repr, Inhabited

/-- The levels by their numbers. -/
def Level.all : List Level := [.off, .error, .warn, .info, .debug, .trace]

/-- The name of a level. -/
def Level.name : Level → String
  | off => "off"
  | error => "error"
  | warn => "warn"
  | info => "info"
  | debug => "debug"
  | trace => "trace"

/-! ## Numbers in directives -/

/-- A decimal digit. -/
def isDigit (c : Char) : Bool := '0' ≤ c && c ≤ '9'

/-- The number that some digits spell. -/
def valueOf (digits : List Char) : Nat :=
  digits.foldl (fun n c => n * 10 + (c.toNat - '0'.toNat)) 0

/-- The number that a text spells in digits. -/
def digits? (cs : List Char) : Option Nat :=
  if cs.isEmpty || !cs.all isDigit then none else some (valueOf cs)

/-- The number that a text spells in digits, perhaps behind a plus, below a bound. -/
def unsigned? (bound : Nat) (cs : List Char) : Option Nat :=
  (digits? (if cs.head? == some '+' then cs.drop 1 else cs)).filter (· < bound)

/-- The number of 64 bits that a text spells, with a sign or without. -/
def signed? (cs : List Char) : Option Int :=
  match cs with
  | '-' :: rest => (digits? rest).bind fun n => if n ≤ twoTo 63 then some (-(n : Int)) else none
  | _ => (unsigned? (twoTo 63) cs).map fun n => (n : Int)

/-- The power of ten that a number is scaled by; nothing stands for none. -/
def scale? : List Char → Option Int
  | [] => some 0
  | c :: rest =>
    if c == 'e' || c == 'E' then
      match rest with
      | '-' :: digits => (digits? digits).map fun n => -(n : Int)
      | '+' :: digits => (digits? digits).map fun n => (n : Int)
      | digits => (digits? digits).map fun n => (n : Int)
    else none

/-- The number that a text spells without its sign. -/
def magnitude? (isNegative : Bool) (cs : List Char) : Option Binary64 :=
  let word := String.ofList (cs.map Char.toLower)
  if word == "inf" || word == "infinity" then some (.infinity isNegative)
  else if word == "nan" then some .nan
  else
    let whole := cs.takeWhile isDigit
    let rest := cs.drop whole.length
    let (fraction, rest) :=
      match rest with
      | '.' :: others => (others.takeWhile isDigit, others.dropWhile isDigit)
      | _ => ([], rest)
    if whole.isEmpty && fraction.isEmpty then none
    else (scale? rest).map fun power =>
      .ofDecimal ⟨isNegative, valueOf (whole ++ fraction), power - fraction.length⟩

/-- The number that a text spells, with a point, an exponent or neither. -/
def number? : List Char → Option Binary64
  | '-' :: rest => magnitude? true rest
  | '+' :: rest => magnitude? false rest
  | cs => magnitude? false cs

/-- The level that a text names or numbers. -/
def Level.ofText? (cs : List Char) : Option Level :=
  match (unsigned? (twoTo 64) cs).bind (Level.all[·]?) with
  | some level => some level
  | none => Level.all.find? fun level => level.name == String.ofList (cs.map Char.toLower)

/-! ## Fields -/

/-- What the value of a field is compared with. -/
inductive FieldValue
  | boolean (value : Bool)
  | number (value : Binary64)
  | notANumber
  | unsigned (value : Nat)
  | signed (value : Int)
  | pattern (text : String)
deriving DecidableEq, Repr, Inhabited

namespace FieldValue

/-- Reads a value as the first kind that it fits. -/
def ofText (cs : List Char) : FieldValue :=
  let text := String.ofList cs
  if text == "true" then boolean true
  else if text == "false" then boolean false
  else match unsigned? (twoTo 64) cs with
    | some n => unsigned n
    | none => match signed? cs with
      | some n => signed n
      | none => match number? cs with
        | some .nan => notANumber
        | some x => number x
        | none => pattern text

/-- The text of a value. -/
def text : FieldValue → String
  | boolean b => if b then "true" else "false"
  | number x => x.text
  | notANumber => Binary64.nan.text
  | unsigned n => toString n
  | signed n => toString n
  | pattern text => text

/-- The place of a kind of value among the others. -/
def rank : FieldValue → Nat
  | boolean _ => 0
  | number _ => 1
  | notANumber => 2
  | unsigned _ => 3
  | signed _ => 4
  | pattern _ => 5

/-- How values are ordered: by kind, and within a kind by size. -/
def order (a b : FieldValue) : Ordering :=
  match a, b with
  | boolean x, boolean y => compare x.toNat y.toNat
  | number x, number y => x.order y
  | unsigned x, unsigned y => compare x y
  | signed x, signed y => compare x y
  | pattern x, pattern y => compare x y
  | _, _ => compare a.rank b.rank

end FieldValue

/-- A field that a message has to have, perhaps with a value. -/
structure FieldMatch where
  name : String
  value : Option FieldValue
deriving DecidableEq, Repr, Inhabited

namespace FieldMatch

/-- Reads `name` or `name=value`; what follows another equals sign does not count. -/
def ofText (cs : List Char) : FieldMatch :=
  let name := cs.takeWhile (· != '=')
  let rest := cs.drop name.length
  ⟨String.ofList name,
    if rest.isEmpty then none
    else some (FieldValue.ofText ((rest.drop 1).takeWhile (· != '=')))⟩

/-- The text of a field. -/
def text (f : FieldMatch) : String :=
  match f.value with
  | some v => f.name ++ "=" ++ v.text
  | none => f.name

end FieldMatch

/-- How things that may be missing are ordered: a missing one comes first. -/
def orderOptional {α : Type} (order : α → α → Ordering) : Option α → Option α → Ordering
  | none, none => .eq
  | none, some _ => .lt
  | some _, none => .gt
  | some a, some b => order a b

/-- How fields are ordered: those without a value first, then by name and value. -/
def FieldMatch.order (a b : FieldMatch) : Ordering :=
  (compare a.value.isSome.toNat b.value.isSome.toNat).then
    ((compare a.name b.name).then (orderOptional FieldValue.order a.value b.value))

/-! ## Directives -/

/-- A directive; what is missing does not restrict it. -/
structure Directive where
  target : Option String
  span : Option String
  field : Option FieldMatch
  level : Level
deriving DecidableEq, Repr, Inhabited

namespace Directive

/-- Where in a directive a character stands, with the offset at which the part began. -/
inductive Place
  | start
  | levelOrTarget
  | span (start : Nat)
  | field (start : Nat)
  | afterField
  | afterSpan
  | level (start : Nat)
deriving DecidableEq, Repr, Inhabited

/-- The part of a text between two offsets. -/
def part (text : List Char) (start stop : Nat) : List Char := Text.slice text ⟨start, stop⟩

/-- Whether a directive without a span can begin with a character. -/
def canBegin (c : Char) : Bool := c == '-' || c == ':' || c == '_' || Text.isWordChar c

/-- Takes the character at an offset of a text. -/
def step (text : List Char) (offset : Nat) (c : Char) (d : Directive) :
    Place → Option (Directive × Place)
  | .start =>
    if c == '[' then some (d, .span (offset + 1))
    else if canBegin c then some (d, .levelOrTarget)
    else none
  | .levelOrTarget =>
    let name := String.ofList (part text 0 offset)
    if c == '=' then some ({ d with target := some name }, .level (offset + 1))
    else if c == '[' then some ({ d with target := some name }, .span (offset + 1))
    else some (d, .levelOrTarget)
  | .span start =>
    let name := part text start offset
    if c == ']' then some ({ d with span := some (String.ofList name) }, .afterSpan)
    else if c == '\x7b' then
      let span := if name.isEmpty then none else some (String.ofList name)
      some ({ d with span }, .field (offset + 1))
    else some (d, .span start)
  | .field start =>
    if c == '\x7d' then
      let field := part text start offset
      if field.isEmpty then none
      else some ({ d with field := some (FieldMatch.ofText field) }, .afterField)
    else some (d, .field start)
  | .afterField => if c == ']' then some (d, .afterSpan) else none
  | .afterSpan => if c == '=' then some (d, .level (offset + 1)) else none
  | .level start => some (d, .level start)

/-- Takes the characters from an offset of a text on. -/
def steps (text : List Char) (offset : Nat) (d : Directive) (place : Place) :
    List Char → Option (Directive × Place)
  | [] => some (d, place)
  | c :: cs => do
    let (d, place) ← step text offset c d place
    steps text (offset + c.utf8Size) d place cs

/-- What the end of the text completes. -/
def finish (text : List Char) (d : Directive) : Place → Option Directive
  | .levelOrTarget =>
    match Level.ofText? text with
    | some level => some { d with level }
    | none => some { d with target := some (String.ofList text) }
  | .level start =>
    let name := Text.dropBytes text start
    if name.isEmpty then some d else (Level.ofText? name).map ({ d with level := · })
  | .afterSpan => some d
  | _ => none

/-- Reads a directive.  A directive without a level is about all levels. -/
def ofText? (text : List Char) : Option Directive := do
  let (d, place) ← steps text 0 ⟨none, none, none, .trace⟩ .start (Text.trim text)
  finish text d place

/-- Whether a directive depends on a span or on fields. -/
def isDynamic (d : Directive) : Bool := d.span.isSome || d.field.isSome

/-- The text of a directive. -/
def text (d : Directive) : String :=
  let field := match d.field with
    | some f => "\x7b" ++ f.text ++ "\x7d"
    | none => ""
  let inside := d.span.getD "" ++ field
  let about := d.target.getD "" ++ (if d.isDynamic then "[" ++ inside ++ "]" else "")
  (if d.target.isSome || d.isDynamic then about ++ "=" else "") ++ d.level.name

/-- Whether it can be known beforehand which messages a directive is about. -/
def isStatic (d : Directive) : Bool := d.span.isNone && !d.field.any (·.value.isSome)

/-- How specific directives are: by the length of their targets, by whether they name a span and a
field, and where all that is equal, by their texts. -/
def order (a b : Directive) : Ordering :=
  (orderOptional compare (a.target.map (·.utf8ByteSize)) (b.target.map (·.utf8ByteSize))).then
    ((compare a.span.isSome.toNat b.span.isSome.toNat).then
      ((compare a.field.isSome.toNat b.field.isSome.toNat).then
        ((orderOptional compare a.target b.target).then
          ((orderOptional compare a.span b.span).then
            (orderOptional FieldMatch.order a.field b.field)))))

/-- Directives with one more, the most specific one first; it replaces one that is as specific. -/
def insert (d : Directive) : List Directive → List Directive
  | [] => [d]
  | e :: rest =>
    match d.order e with
    | .gt => d :: e :: rest
    | .eq => d :: rest
    | .lt => e :: insert d rest

/-- Directives in order. -/
def sort (ds : List Directive) : List Directive := ds.foldl (fun sorted d => insert d sorted) []

end Directive

end LogFilter

/-! ## Filters -/

/-- A filter: the directives whose messages can be known beforehand, and those that depend on what
happens; some are both. -/
structure LogFilter where
  fixed : List LogFilter.Directive
  dynamic : List LogFilter.Directive
deriving DecidableEq, Repr, Inhabited

namespace LogFilter

/-- The filter of some directives, of which later ones go before earlier ones. -/
def ofDirectives (ds : List Directive) : LogFilter :=
  let (dynamic, plain) := ds.partition (·.isDynamic)
  ⟨Directive.sort (plain ++ dynamic.filter (·.isStatic)), Directive.sort dynamic⟩

/-- What stands between the commas of a text. -/
def split : List Char → List (List Char)
  | [] => [[]]
  | c :: cs =>
    if c == ',' then [] :: split cs
    else match split cs with
      | part :: parts => (c :: part) :: parts
      | [] => [[c]]

/-- Reads a filter: directives with commas between them. -/
def ofText? (text : String) : Option LogFilter :=
  (((split text.toList).filter (!·.isEmpty)).mapM Directive.ofText?).map ofDirectives

/-- The filter that lets warnings through. -/
def warnings : LogFilter := ofDirectives [⟨none, none, none, .warn⟩]

/-- The text of a filter. -/
def text (f : LogFilter) : String := ",".intercalate ((f.fixed ++ f.dynamic).map (·.text))

end LogFilter

end MethodLift

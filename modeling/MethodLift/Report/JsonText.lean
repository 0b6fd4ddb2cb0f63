import MethodLift.Text.Quoted

/-!
# Reports in JSON

Values as JSON texts over several lines, indented by two blanks for each level.
-/

namespace MethodLift.Report

/-- What a report says; the fields of an object in the order in which they are written. -/
inductive ReportValue
  | null
  | boolean (value : Bool)
  | number (value : Nat)
  | string (text : String)
  | array (elements : List ReportValue)
  | object (fields : List (String × ReportValue))
deriving Inhabited

namespace ReportValue

/-- A number in at least four hexadecimal digits. -/
def fourDigits (n : Nat) : String :=
  let digits := Nat.toDigits 16 n
  String.ofList (List.replicate (4 - digits.length) '0' ++ digits)

/-- A character inside a string. -/
def escape (c : Char) : String :=
  if c == '"' then "\\\""
  else if c == '\\' then "\\\\"
  else if c == '\n' then "\\n"
  else if c == '\r' then "\\r"
  else if c == '\t' then "\\t"
  else if c == '\x08' then "\\b"
  else if c == '\x0c' then "\\f"
  else if c.toNat < 0x20 then "\\u" ++ fourDigits c.toNat
  else c.toString

/-- A string with its quotes. -/
def quote (text : String) : String := "\"" ++ String.join (text.toList.map escape) ++ "\""

/-- The start of a line of some level. -/
def newLine (level : Nat) : String := "\n" ++ String.ofList (List.replicate (2 * level) ' ')

/-- Lines of one level between brackets. -/
def block (opening closing : String) (level : Nat) : List String → String
  | [] => opening ++ closing
  | lines =>
    opening ++ newLine (level + 1) ++ ("," ++ newLine (level + 1)).intercalate lines
      ++ newLine level ++ closing

mutual

/-- The text of a value that stands on a line of some level. -/
def textAt (level : Nat) : ReportValue → String
  | null => "null"
  | boolean b => if b then "true" else "false"
  | number n => toString n
  | string text => quote text
  | array elements => block "[" "]" level (elementTexts (level + 1) elements)
  | object fields => block "\x7b" "\x7d" level (fieldTexts (level + 1) fields)

/-- The texts of the elements of an array. -/
def elementTexts (level : Nat) : List ReportValue → List String
  | [] => []
  | v :: vs => textAt level v :: elementTexts level vs

/-- The texts of the fields of an object. -/
def fieldTexts (level : Nat) : List (String × ReportValue) → List String
  | [] => []
  | (name, v) :: rest => (quote name ++ ": " ++ textAt level v) :: fieldTexts level rest

end

/-- The text of a value. -/
def text (v : ReportValue) : String := textAt 0 v

/-- A value that may be missing. -/
def optional : Option String → ReportValue
  | some text => string text
  | none => null

/-- A list of texts. -/
def strings (texts : List String) : ReportValue := array (texts.map string)

end ReportValue

end MethodLift.Report

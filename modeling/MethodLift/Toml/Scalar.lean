import MethodLift.Toml.Value

/-!
# Strings, numbers and dates

The values of a TOML document that contain no others, and what stands around values: blanks,
comments and line ends.  Each reader takes what it reads off the front of the text and returns the
rest, or fails.
-/

namespace MethodLift.Toml

/-! ## Around values -/

/-- A space or a tab. -/
def isBlank (c : Char) : Bool := c == ' ' || c == '\t'

/-- The text after its leading blanks. -/
def skipBlanks (cs : List Char) : List Char := cs.dropWhile isBlank

/-- What can stand in a comment or a literal string: no control character but the tab. -/
def isPrintable (c : Char) : Bool :=
  c == '\t' || (0x20 ≤ c.toNat && c.toNat ≤ 0x7e) || 0x80 ≤ c.toNat

/-- Takes a line end. -/
def newline? : List Char → Option (List Char)
  | '\n' :: rest => some rest
  | '\r' :: '\n' :: rest => some rest
  | _ => none

/-- The text after a comment, if it starts with one. -/
def skipComment : List Char → List Char
  | '#' :: rest => rest.dropWhile isPrintable
  | cs => cs

/-- Takes the rest of a line on which nothing follows but a comment. -/
def lineRest? (cs : List Char) : Option (List Char) :=
  let rest := skipComment (skipBlanks cs)
  if rest.isEmpty then some [] else newline? rest

/-- The text after blanks, line ends and comments, of which there are fewer than `bound`. -/
def skipSpace (cs : List Char) : Nat → List Char
  | 0 => cs
  | bound + 1 =>
    let rest := skipComment (skipBlanks cs)
    match newline? rest with
    | some next => skipSpace next bound
    | none => rest

/-! ## Strings -/

/-- The characters that a backslash and a letter stand for. -/
def namedEscape? : Char → Option Char
  | 'b' => some '\x08'
  | 't' => some '\t'
  | 'n' => some '\n'
  | 'f' => some '\x0c'
  | 'r' => some '\r'
  | '"' => some '"'
  | '\\' => some '\\'
  | _ => none

/-- The value of a hexadecimal digit. -/
def hexValue? (c : Char) : Option Nat :=
  if '0' ≤ c && c ≤ '9' then some (c.toNat - '0'.toNat)
  else if 'a' ≤ c && c ≤ 'f' then some (c.toNat - 'a'.toNat + 10)
  else if 'A' ≤ c && c ≤ 'F' then some (c.toNat - 'A'.toNat + 10)
  else none

/-- The character of a number that is written in hexadecimal digits. -/
def numberedEscape? (digits : List Char) : Option Char := do
  let n ← digits.foldlM (fun n c => (hexValue? c).map (n * 16 + ·)) 0
  if n.isValidChar then some (Char.ofNat n) else none

/-- Puts a character before what is read. -/
def before (c : Char) (read : List Char × List Char) : List Char × List Char :=
  (c :: read.1, read.2)

/-- Reads a string in double quotes from behind its first quote. -/
def basicString? : List Char → Option (List Char × List Char)
  | '"' :: rest => some ([], rest)
  | '\\' :: 'u' :: a :: b :: c :: d :: rest => do
    let char ← numberedEscape? [a, b, c, d]
    return before char (← basicString? rest)
  | '\\' :: 'U' :: a :: b :: c :: d :: e :: f :: g :: h :: rest => do
    let char ← numberedEscape? [a, b, c, d, e, f, g, h]
    return before char (← basicString? rest)
  | '\\' :: c :: rest => do
    let char ← namedEscape? c
    return before char (← basicString? rest)
  | c :: rest => if isPrintable c then (basicString? rest).map (before c) else none
  | [] => none

/-- Whether a backslash before this text joins the line to the next one. -/
def joinsLines (cs : List Char) : Bool := (newline? (skipBlanks cs)).isSome

/-- Reads a string in three double quotes from behind them.  While `joining`, blanks and line ends
are left out. -/
def longBasicString? (joining : Bool) : List Char → Option (List Char × List Char)
  | '"' :: '"' :: '"' :: '"' :: '"' :: rest => some (['"', '"'], rest)
  | '"' :: '"' :: '"' :: '"' :: rest => some (['"'], rest)
  | '"' :: '"' :: '"' :: rest => some ([], rest)
  | '\\' :: 'u' :: a :: b :: c :: d :: rest => do
    let char ← numberedEscape? [a, b, c, d]
    return before char (← longBasicString? false rest)
  | '\\' :: 'U' :: a :: b :: c :: d :: e :: f :: g :: h :: rest => do
    let char ← numberedEscape? [a, b, c, d, e, f, g, h]
    return before char (← longBasicString? false rest)
  | '\\' :: c :: rest =>
    if joinsLines (c :: rest) then longBasicString? true (c :: rest)
    else do
      let char ← namedEscape? c
      return before char (← longBasicString? false rest)
  | '\r' :: '\n' :: rest =>
    if joining then longBasicString? true rest
    else (longBasicString? false rest).map (before '\n')
  | '\n' :: rest =>
    if joining then longBasicString? true rest
    else (longBasicString? false rest).map (before '\n')
  | c :: rest =>
    if joining && isBlank c then longBasicString? true rest
    else if isPrintable c then (longBasicString? false rest).map (before c)
    else none
  | [] => none

/-- Reads a string in single quotes from behind its first quote. -/
def literalString? : List Char → Option (List Char × List Char)
  | '\'' :: rest => some ([], rest)
  | c :: rest => if isPrintable c then (literalString? rest).map (before c) else none
  | [] => none

/-- Reads a string in three single quotes from behind them. -/
def longLiteralString? : List Char → Option (List Char × List Char)
  | '\'' :: '\'' :: '\'' :: '\'' :: '\'' :: rest => some (['\'', '\''], rest)
  | '\'' :: '\'' :: '\'' :: '\'' :: rest => some (['\''], rest)
  | '\'' :: '\'' :: '\'' :: rest => some ([], rest)
  | '\r' :: '\n' :: rest => (longLiteralString? rest).map (before '\n')
  | '\n' :: rest => (longLiteralString? rest).map (before '\n')
  | c :: rest => if isPrintable c then (longLiteralString? rest).map (before c) else none
  | [] => none

/-- The text after a line end, if it starts with one. -/
def skipNewline (cs : List Char) : List Char := (newline? cs).getD cs

/-- Reads a string of any of the four forms. -/
def string? : List Char → Option (String × List Char)
  | '"' :: '"' :: '"' :: rest => text (longBasicString? false (skipNewline rest))
  | '"' :: rest => text (basicString? rest)
  | '\'' :: '\'' :: '\'' :: rest => text (longLiteralString? (skipNewline rest))
  | '\'' :: rest => text (literalString? rest)
  | _ => none
where
  /-- The characters as a string. -/
  text (read : Option (List Char × List Char)) : Option (String × List Char) :=
    read.map fun (cs, rest) => (String.ofList cs, rest)

/-! ## Numbers -/

/-- A decimal digit. -/
def isDecimalDigit (c : Char) : Bool := '0' ≤ c && c ≤ '9'

/-- Reads digits, in which single underscores may stand between two of them. -/
def digitsAfter (isDigit : Char → Bool) : List Char → List Char × List Char
  | '_' :: c :: rest =>
    if isDigit c then before c (digitsAfter isDigit rest) else ([], '_' :: c :: rest)
  | c :: rest => if isDigit c then before c (digitsAfter isDigit rest) else ([], c :: rest)
  | [] => ([], [])

/-- Reads one digit or more. -/
def digits? (isDigit : Char → Bool) : List Char → Option (List Char × List Char)
  | c :: rest => if isDigit c then some (before c (digitsAfter isDigit rest)) else none
  | [] => none

/-- The number that digits of a base spell. -/
def valueOf (base : Nat) (digits : List Char) : Nat :=
  digits.foldl (fun n c => n * base + (hexValue? c).getD 0) 0

/-- Takes a sign, if there is one; true for a minus. -/
def sign : List Char → Bool × List Char
  | '-' :: rest => (true, rest)
  | '+' :: rest => (false, rest)
  | cs => (false, cs)

/-- Reads the digits of a whole number, which begin with a zero only if that is all of them. -/
def wholeDigits? : List Char → Option (List Char × List Char)
  | '0' :: rest => some (['0'], rest)
  | cs => digits? isDecimalDigit cs

/-- Reads a fraction from its point on. -/
def fraction? : List Char → Option (List Char × List Char)
  | '.' :: rest => digits? isDecimalDigit rest
  | _ => none

/-- Reads the power of ten that a number is scaled by. -/
def exponent? : List Char → Option (Int × List Char)
  | 'e' :: rest | 'E' :: rest => do
    let (isNegative, rest) := sign rest
    let (digits, rest) ← digits? isDecimalDigit rest
    let n : Int := valueOf 10 digits
    return (if isNegative then -n else n, rest)
  | _ => none

/-- The number of some digits, a fraction and an exponent.  It must not be too great. -/
def floatOf? (isNegative : Bool) (whole fraction : List Char) (exponent : Int) : Option Value :=
  let decimal : Decimal := ⟨isNegative, valueOf 10 (whole ++ fraction), exponent - fraction.length⟩
  match Binary64.ofDecimal decimal with
  | .infinity false => none
  | value => some (.float value)

/-- Reads a number with a fraction or an exponent. -/
def float? (cs : List Char) : Option (Value × List Char) := do
  let (isNegative, rest) := sign cs
  let (whole, rest) ← wholeDigits? rest
  match fraction? rest with
  | some (fraction, rest) =>
    let (exponent, rest) := (exponent? rest).getD (0, rest)
    return (← floatOf? isNegative whole fraction exponent, rest)
  | none =>
    let (exponent, rest) ← exponent? rest
    return (← floatOf? isNegative whole [] exponent, rest)

/-- Reads one of the numbers that have names. -/
def namedFloat? (cs : List Char) : Option (Value × List Char) :=
  match sign cs with
  | (isNegative, 'i' :: 'n' :: 'f' :: rest) => some (.float (.infinity isNegative), rest)
  | (_, 'n' :: 'a' :: 'n' :: rest) => some (.float .nan, rest)
  | _ => none

/-- A whole number of 64 bits. -/
def integerOf? (n : Int) : Option Value :=
  if -(twoTo 63 : Int) ≤ n && n < twoTo 63 then some (.integer n) else none

/-- Reads a whole number behind the mark of its base. -/
def basedInteger? (base : Nat) (cs : List Char) : Option (Value × List Char) := do
  let (digits, rest) ← digits? (fun c => (hexValue? c).any (· < base)) cs
  return (← integerOf? (valueOf base digits), rest)

/-- Reads a whole number. -/
def integer? : List Char → Option (Value × List Char)
  | '0' :: 'x' :: rest => basedInteger? 16 rest
  | '0' :: 'o' :: rest => basedInteger? 8 rest
  | '0' :: 'b' :: rest => basedInteger? 2 rest
  | cs => do
    let (isNegative, rest) := sign cs
    let (digits, rest) ← wholeDigits? rest
    let n : Int := valueOf 10 digits
    return (← integerOf? (if isNegative then -n else n), rest)

/-! ## Dates and times -/

/-- Reads exactly `count` digits of a number between two bounds. -/
def field? (count least most : Nat) (cs : List Char) : Option (Nat × List Char) :=
  let digits := cs.take count
  let n := valueOf 10 digits
  if digits.length == count && digits.all isDecimalDigit && least ≤ n && n ≤ most then
    some (n, cs.drop count)
  else none

/-- Takes a character. -/
def char? (c : Char) : List Char → Option (List Char)
  | d :: rest => if c == d then some rest else none
  | [] => none

/-- The number of days of a month. -/
def daysOf (year month : Nat) : Nat :=
  let isLeapYear := year % 4 == 0 && (year % 100 != 0 || year % 400 == 0)
  match month with
  | 2 => if isLeapYear then 29 else 28
  | 4 | 6 | 9 | 11 => 30
  | _ => 31

/-- Reads a date. -/
def date? (cs : List Char) : Option (List Char) := do
  let (year, rest) ← field? 4 0 9999 cs
  let (month, rest) ← field? 2 1 12 (← char? '-' rest)
  let (_, rest) ← field? 2 1 (daysOf year month) (← char? '-' rest)
  return rest

/-- The text after a fraction of a second, if it starts with one. -/
def skipFraction (cs : List Char) : List Char :=
  match cs with
  | '.' :: c :: rest => if isDecimalDigit c then rest.dropWhile isDecimalDigit else cs
  | _ => cs

/-- Reads a time of day. -/
def time? (cs : List Char) : Option (List Char) := do
  let (_, rest) ← field? 2 0 23 cs
  let (_, rest) ← field? 2 0 59 (← char? ':' rest)
  let (_, rest) ← field? 2 0 60 (← char? ':' rest)
  return skipFraction rest

/-- Reads the distance of a time zone. -/
def offset? : List Char → Option (List Char)
  | 'Z' :: rest | 'z' :: rest => some rest
  | '+' :: rest | '-' :: rest => do
    let (_, rest) ← field? 2 0 23 rest
    let (_, rest) ← field? 2 0 59 (← char? ':' rest)
    return rest
  | _ => none

/-- Reads the time that follows a date, with or without a time zone. -/
def timeAfterDate? : List Char → Option (List Char)
  | 'T' :: rest | 't' :: rest | ' ' :: rest => do
    let rest ← time? rest
    return (offset? rest).getD rest
  | _ => none

/-- Reads a date, a time or both. -/
def dateTime? (cs : List Char) : Option (Value × List Char) :=
  match date? cs with
  | some rest => some (.dateTime, (timeAfterDate? rest).getD rest)
  | none => (time? cs).map (.dateTime, ·)

/-- Reads a value that contains no others. -/
def scalar? (cs : List Char) : Option (Value × List Char) :=
  match cs with
  | '"' :: _ | '\'' :: _ => (string? cs).map fun (s, rest) => (.string s, rest)
  | 't' :: 'r' :: 'u' :: 'e' :: rest => some (.boolean true, rest)
  | 'f' :: 'a' :: 'l' :: 's' :: 'e' :: rest => some (.boolean false, rest)
  | _ => (dateTime? cs).or ((float? cs).or ((namedFloat? cs).or (integer? cs)))

end MethodLift.Toml

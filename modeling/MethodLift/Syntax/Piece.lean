import MethodLift.Syntax.Token
import MethodLift.Text.WordChar

/-!
# Lexical pieces

The stretch of text that stands at the front of a text, seen without its surroundings: a blank, a
comment, a line break, a word, a number, a string, a symbol.  `Piece.read` splits a nonempty text
into its first piece, the characters of that piece, and what follows.

Main statements: a piece and the rest together are the text (`Piece.read_taken_append_rest`), and a
piece is never empty (`Piece.read_rest_length`), which is what makes reading a whole text end.
-/

namespace MethodLift.Syntax

/-- The kinds of stretches that a text consists of. -/
inductive Piece
  /-- A space, a tab or a form feed. -/
  | blank
  | comment
  | lineBreak
  /-- A backslash at the end of a line, with the line break. -/
  | joint
  /-- A backslash anywhere else. -/
  | strayBackslash
  | number
  /-- A string literal, with or without replacement fields, and whether its closing quotes are
  there. -/
  | string (formatted closed : Bool)
  | word
  | symbol (symbol : Symbol)
  /-- A character that begins nothing. -/
  | unknown
deriving DecidableEq, Repr, Inhabited

/-- A front part of a text, and what follows it. -/
structure Cut where
  taken : List Char
  rest : List Char
deriving DecidableEq, Repr, Inhabited

namespace Cut

/-- Adds a character to the front part. -/
def push (c : Char) (cut : Cut) : Cut := { cut with taken := c :: cut.taken }

@[simp] theorem push_taken (c : Char) (cut : Cut) : (cut.push c).taken = c :: cut.taken := rfl

@[simp] theorem push_rest (c : Char) (cut : Cut) : (cut.push c).rest = cut.rest := rfl

/-- The longest front part of characters with a property. -/
def spanning (p : Char → Bool) (cs : List Char) : Cut := ⟨cs.takeWhile p, cs.dropWhile p⟩

theorem spanning_append (p : Char → Bool) (cs : List Char) :
    (Cut.spanning p cs).taken ++ (Cut.spanning p cs).rest = cs := List.takeWhile_append_dropWhile

end Cut

/-- Spaces, tabs and form feeds separate tokens. -/
def isBlank (c : Char) : Bool := c == ' ' || c == '\t' || c == '\x0c'

/-- A line ends before either of these. -/
def isLineEnd (c : Char) : Bool := c == '\n' || c == '\r'

namespace Piece

/-! ## The pieces of more than one character -/

/-- The rest of a line break, after its first character: a carriage return and a line feed make
one break together. -/
def afterBreak (c : Char) (cs : List Char) : Cut :=
  match cs with
  | '\n' :: rest => if c == '\r' then ⟨['\n'], rest⟩ else ⟨[], cs⟩
  | _ => ⟨[], cs⟩

/-- Letters, digits, underscores and dots make up a number. -/
def isNumberChar (c : Char) : Bool := c.isAlphanum || c == '_' || c == '.'

/-- The longest number at the front.  After an exponent letter a sign belongs to the number, unless
the number is hexadecimal, where `e` is a digit. -/
def numberCut (hex : Bool) : List Char → Cut
  | [] => ⟨[], []⟩
  | c :: cs =>
    if isNumberChar c then
      match cs with
      | sign :: after =>
        if (c == 'e' || c == 'E') && !hex && (sign == '+' || sign == '-') then
          ((numberCut hex after).push sign).push c
        else (numberCut hex (sign :: after)).push c
      | [] => ⟨[c], []⟩
    else ⟨[], c :: cs⟩

/-- Whether a number is hexadecimal. -/
def isHex : List Char → Bool
  | '0' :: c :: _ => c == 'x' || c == 'X'
  | _ => false

/-- A front part of a text that is a string or the end of one, and whether its closing quotes are
there. -/
structure StringCut extends Cut where
  closed : Bool
deriving DecidableEq, Repr, Inhabited

/-- Adds a character to the front of a string. -/
def StringCut.push (c : Char) (s : StringCut) : StringCut := ⟨s.toCut.push c, s.closed⟩

@[simp] theorem StringCut.push_taken (c : Char) (s : StringCut) :
    (s.push c).taken = c :: s.taken := rfl

@[simp] theorem StringCut.push_rest (c : Char) (s : StringCut) : (s.push c).rest = s.rest := rfl

/-- The inside of a string up to and including the closing quotes.  A backslash hides the character
after it; a string in single quotes ends before the end of the line at the latest. -/
def stringTail (quote : Char) (triple : Bool) : List Char → StringCut
  | [] => ⟨⟨[], []⟩, false⟩
  | c :: cs =>
    if c == '\\' then
      match cs with
      | [] => ⟨⟨[c], []⟩, false⟩
      | hidden :: after => ((stringTail quote triple after).push hidden).push c
    else if isLineEnd c && !triple then ⟨⟨[], c :: cs⟩, false⟩
    else if c == quote && !triple then ⟨⟨[c], cs⟩, true⟩
    else if c == quote then
      match cs with
      | second :: third :: after =>
        if second == quote && third == quote then ⟨⟨[c, second, third], after⟩, true⟩
        else (stringTail quote triple (second :: third :: after)).push c
      | cs => (stringTail quote triple cs).push c
    else (stringTail quote triple cs).push c

/-- A string from just after its first quote. -/
def stringBody (quote : Char) (cs : List Char) : StringCut :=
  match cs with
  | second :: third :: after =>
    if second == quote && third == quote then
      ((stringTail quote true after).push third).push second
    else stringTail quote false cs
  | _ => stringTail quote false cs

/-- Single and double quotes begin strings. -/
def isQuote (c : Char) : Bool := c == '"' || c == '\''

/-- The letters that may stand before the quotes of a string. -/
def isStringPrefix (c : Char) : Bool :=
  c == 'r' || c == 'R' || c == 'b' || c == 'B' || c == 'u' || c == 'U' || c == 'f' || c == 'F'

/-- The letter that asks for replacement fields. -/
def isFormatPrefix (c : Char) : Bool := c == 'f' || c == 'F'

/-- A string with one or two letters before its quotes. -/
def prefixedString? (c : Char) (cs : List Char) : Option (Piece × Cut) :=
  match cs with
  | [] => none
  | second :: after =>
    if !isStringPrefix c then none
    else if isQuote second then
      let body := stringBody second after
      some (.string (isFormatPrefix c) body.closed, (body.toCut.push second).push c)
    else if isStringPrefix second then
      match after with
      | [] => none
      | third :: inside =>
        if isQuote third then
          let body := stringBody third inside
          some (.string (isFormatPrefix c || isFormatPrefix second) body.closed,
            ((body.toCut.push third).push second).push c)
        else none
    else none

/-- The rest of the text after a prefix of it. -/
def dropPrefix? : List Char → List Char → Option (List Char)
  | [], cs => some cs
  | _ :: _, [] => none
  | p :: ps, c :: cs => if p == c then dropPrefix? ps cs else none

/-- The longest symbol at the front of a text. -/
def symbol? (cs : List Char) : Option (Symbol × Cut) :=
  Symbol.all.findSome? fun s =>
    (dropPrefix? s.text.toList cs).map fun rest => (s, ⟨s.text.toList, rest⟩)

/-- Whether a number begins with these characters: a digit, or a dot before a digit. -/
def beginsNumber (c : Char) (cs : List Char) : Bool :=
  c.isDigit || (c == '.' && cs.head?.any Char.isDigit)

/-! ## Reading a piece -/

/-- The first piece of the text `c :: cs`. -/
def read (c : Char) (cs : List Char) : Piece × Cut :=
  if isBlank c then (.blank, ⟨[c], cs⟩)
  else if c == '#' then (.comment, (Cut.spanning (!isLineEnd ·) cs).push c)
  else if isLineEnd c then (.lineBreak, (afterBreak c cs).push c)
  else if c == '\\' then
    match cs with
    | d :: ds =>
      if isLineEnd d then (.joint, ((afterBreak d ds).push d).push c)
      else (.strayBackslash, ⟨[c], cs⟩)
    | [] => (.strayBackslash, ⟨[c], cs⟩)
  else if beginsNumber c cs then (.number, numberCut (isHex (c :: cs)) (c :: cs))
  else if isQuote c then
    let body := stringBody c cs
    (.string false body.closed, body.toCut.push c)
  else if Text.isNameStart c then
    match prefixedString? c cs with
    | some found => found
    | none => (.word, (Cut.spanning Text.isWordChar cs).push c)
  else
    match symbol? (c :: cs) with
    | some (s, cut) => (.symbol s, cut)
    | none => (.unknown, ⟨[c], cs⟩)

/-! ## Nothing is lost and every step takes something -/

theorem afterBreak_append (c : Char) (cs : List Char) :
    (afterBreak c cs).taken ++ (afterBreak c cs).rest = cs := by
  unfold afterBreak
  split
  · split <;> rfl
  · rfl

theorem numberCut_append (hex : Bool) (cs : List Char) :
    (numberCut hex cs).taken ++ (numberCut hex cs).rest = cs := by
  fun_induction numberCut hex cs <;> simp_all

theorem stringTail_append (quote : Char) (triple : Bool) (cs : List Char) :
    (stringTail quote triple cs).taken ++ (stringTail quote triple cs).rest = cs := by
  fun_induction stringTail quote triple cs <;> simp_all

theorem stringBody_append (quote : Char) (cs : List Char) :
    (stringBody quote cs).taken ++ (stringBody quote cs).rest = cs := by
  unfold stringBody
  split
  · split
    · simp [stringTail_append]
    · exact stringTail_append ..
  · exact stringTail_append ..

theorem prefixedString?_append {c : Char} {cs : List Char} {found : Piece × Cut}
    (h : prefixedString? c cs = some found) : found.2.taken ++ found.2.rest = c :: cs := by
  unfold prefixedString? at h
  split at h
  · simp at h
  · split at h
    · simp at h
    · split at h
      · obtain rfl := Option.some.inj h
        simp [stringBody_append]
      · split at h
        · split at h
          · simp at h
          · split at h
            · obtain rfl := Option.some.inj h
              simp [stringBody_append]
            · simp at h
        · simp at h

theorem dropPrefix?_append {ps cs rest : List Char} (h : dropPrefix? ps cs = some rest) :
    ps ++ rest = cs := by
  fun_induction dropPrefix? ps cs <;> simp_all

theorem symbol?_append {cs : List Char} {s : Symbol} {cut : Cut} (h : symbol? cs = some (s, cut)) :
    cut.taken ++ cut.rest = cs := by
  obtain ⟨t, -, ht⟩ := List.exists_of_findSome?_eq_some h
  obtain ⟨rest, hr, he⟩ := Option.map_eq_some_iff.1 ht
  cases he
  exact dropPrefix?_append hr

/-- A piece and what follows it are the text. -/
theorem read_taken_append_rest (c : Char) (cs : List Char) :
    (read c cs).2.taken ++ (read c cs).2.rest = c :: cs := by
  unfold read
  split
  · rfl
  · split
    · simp [Cut.spanning_append]
    · split
      · simp [afterBreak_append]
      · split
        · split
          · split
            · simp [afterBreak_append]
            · rfl
          · rfl
        · split
          · exact numberCut_append ..
          · split
            · simp [stringBody_append]
            · split
              · split
                · next found => exact prefixedString?_append found
                · simp [Cut.spanning_append]
              · split
                · next found => exact symbol?_append found
                · rfl

theorem numberCut_taken_ne_nil {hex : Bool} {c : Char} {cs : List Char}
    (h : isNumberChar c = true) : (numberCut hex (c :: cs)).taken ≠ [] := by
  unfold numberCut
  rw [if_pos h]
  split
  · split <;> simp
  · simp

theorem isNumberChar_of_beginsNumber {c : Char} {cs : List Char}
    (h : beginsNumber c cs = true) : isNumberChar c = true := by
  unfold beginsNumber at h
  unfold isNumberChar Char.isAlphanum
  rw [Bool.or_eq_true] at h
  rcases h with h | h
  · simp [h]
  · rw [Bool.and_eq_true] at h
    simp [h.1]

theorem prefixedString?_taken_ne_nil {c : Char} {cs : List Char} {found : Piece × Cut}
    (h : prefixedString? c cs = some found) : found.2.taken ≠ [] := by
  unfold prefixedString? at h
  split at h
  · simp at h
  · split at h
    · simp at h
    · split at h
      · obtain rfl := Option.some.inj h
        simp
      · split at h
        · split at h
          · simp at h
          · split at h
            · obtain rfl := Option.some.inj h
              simp
            · simp at h
        · simp at h

theorem symbol?_taken_ne_nil {cs : List Char} {s : Symbol} {cut : Cut}
    (h : symbol? cs = some (s, cut)) : cut.taken ≠ [] := by
  obtain ⟨t, -, ht⟩ := List.exists_of_findSome?_eq_some h
  obtain ⟨rest, -, he⟩ := Option.map_eq_some_iff.1 ht
  cases he
  exact Symbol.text_ne_empty s

/-- No piece is empty. -/
theorem read_taken_ne_nil (c : Char) (cs : List Char) : (read c cs).2.taken ≠ [] := by
  unfold read
  split
  · simp
  · split
    · simp
    · split
      · simp
      · split
        · split
          · split <;> simp
          · simp
        · split
          · next begins => exact numberCut_taken_ne_nil (isNumberChar_of_beginsNumber begins)
          · split
            · simp
            · split
              · split
                · next found => exact prefixedString?_taken_ne_nil found
                · simp
              · split
                · next found => exact symbol?_taken_ne_nil found
                · simp

/-- What follows a piece is shorter than the text. -/
theorem read_rest_length (c : Char) (cs : List Char) :
    (read c cs).2.rest.length < (c :: cs).length := by
  have split := congrArg List.length (read_taken_append_rest c cs)
  have some := List.length_pos_iff.2 (read_taken_ne_nil c cs)
  rw [List.length_append] at split
  omega

end Piece

end MethodLift.Syntax

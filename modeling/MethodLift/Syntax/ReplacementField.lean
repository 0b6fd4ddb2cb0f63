import MethodLift.Syntax.Piece
import MethodLift.Syntax.Token

/-!
# Replacement fields

Where the expressions of a formatted string are: between an opening brace and the first thing
outside brackets that ends an expression, which is the closing brace, a conversion, a format
specification, or the equals sign of a field that shows its own text.  Format specifications may
hold fields again; since such a field ends where its specification goes on, a count of the
specifications that are open is all that has to be remembered.

Everything is read off the text from the start of the string to the end of the module, with a limit
where the string's inside ends, because a field that was never closed is told from one that was by
the character behind the limit.
-/

namespace MethodLift.Syntax

/-- A place in a text: its byte offset, and the text from there on. -/
structure Place where
  offset : Nat
  rest : List Char
deriving DecidableEq, Repr, Inhabited

namespace ReplacementField

/-- Whether a character ends what may follow an expression that shows its own text. -/
def endsSelfShown (c : Char) : Bool := c == '}' || c == '!' || c == ':'

/-- Whether an equals sign after this character belongs to a comparison. -/
def beginsComparison (c : Char) : Bool := c == '=' || c == '!' || c == '<' || c == '>'

/-- Whether the character `c` ends an expression outside brackets and strings, given the one before
it and what follows it. -/
def endsExpression (previous c : Char) (rest : List Char) : Bool :=
  c == '}' || c == ':' || (c == '!' && rest.head? != some '=')
    || (c == '=' && endsSelfShown (rest.headD '}') && !beginsComparison previous)

/-- Where an expression ends that is read from `offset` on, with `depth` open brackets, inside the
string that `quote?` began if there is one, and after the character `previous`.  A quote inside an
expression begins a string and the next such quote ends it, whatever their number. -/
def expressionEnd (limit depth : Nat) (quote? : Option Char) (previous : Char) (offset : Nat) :
    List Char → Place
  | [] => ⟨offset, []⟩
  | c :: rest =>
    if limit ≤ offset then ⟨offset, c :: rest⟩
    else
      let next := offset + c.utf8Size
      match quote? with
      | some quote =>
        if c == '\\' then
          if limit ≤ next then ⟨next, rest⟩
          else
            match rest with
            | [] => ⟨next, []⟩
            | hidden :: after =>
              expressionEnd limit depth quote? hidden (next + hidden.utf8Size) after
        else expressionEnd limit depth (if c == quote then none else quote?) c next rest
      | none =>
        if depth == 0 && endsExpression previous c rest then ⟨offset, c :: rest⟩
        else if Piece.isQuote c then expressionEnd limit depth (some c) c next rest
        else if c == '(' || c == '[' || c == '{' then
          expressionEnd limit (depth + 1) none c next rest
        else if c == ')' || c == ']' || c == '}' then
          expressionEnd limit (depth - 1) none c next rest
        else expressionEnd limit depth none c next rest

/-- Passes over a character if it stands at the place and the limit is not reached. -/
def skip (limit : Nat) (c : Char) (place : Place) : Place :=
  match place.rest with
  | d :: rest =>
    if d == c && place.offset < limit then ⟨place.offset + d.utf8Size, rest⟩ else place
  | [] => place

/-- Passes over a conversion, if one begins at the place: from the exclamation mark up to the
format specification or the end of the field. -/
def skipConversion (limit : Nat) (place : Place) : Place :=
  if place.rest.head? == some '!' && place.offset < limit then go place.offset place.rest
  else place
where
  /-- Goes on to a colon, a closing brace or the limit. -/
  go (offset : Nat) : List Char → Place
    | [] => ⟨offset, []⟩
    | c :: rest =>
      if limit ≤ offset || c == ':' || c == '}' then ⟨offset, c :: rest⟩
      else go (offset + c.utf8Size) rest

theorem length_expressionEnd (limit depth : Nat) (quote? : Option Char) (previous : Char)
    (offset : Nat) (cs : List Char) :
    (expressionEnd limit depth quote? previous offset cs).rest.length ≤ cs.length := by
  fun_induction expressionEnd limit depth quote? previous offset cs <;> simp_all <;> omega

theorem length_skip (limit : Nat) (c : Char) (place : Place) :
    (skip limit c place).rest.length ≤ place.rest.length := by
  unfold skip
  split
  · next heq => split <;> simp [heq]
  · simp

theorem length_skipConversion_go (limit offset : Nat) (cs : List Char) :
    (skipConversion.go limit offset cs).rest.length ≤ cs.length := by
  fun_induction skipConversion.go limit offset cs with
  | case1 => exact Nat.le_refl _
  | case2 => exact Nat.le_refl _
  | case3 _ _ _ _ ih => exact Nat.le_succ_of_le ih

theorem length_skipConversion (limit : Nat) (place : Place) :
    (skipConversion limit place).rest.length ≤ place.rest.length := by
  unfold skipConversion
  split
  · exact length_skipConversion_go ..
  · simp

/-- Where a field goes on after its expression: past an equals sign and a conversion. -/
def afterExpression (limit : Nat) (place : Place) : Place :=
  skipConversion limit (skip limit '=' place)

theorem length_afterExpression (limit : Nat) (place : Place) :
    (afterExpression limit place).rest.length ≤ place.rest.length :=
  Nat.le_trans (length_skipConversion ..) (length_skip ..)

/-- The spans of the expressions in `cs`, which begins at `offset` inside `specs` open format
specifications. -/
def spansFrom (limit specs offset : Nat) (cs : List Char) : List Span :=
  match cs with
  | [] => []
  | c :: rest =>
    if limit ≤ offset then []
    else
      let next := offset + c.utf8Size
      if specs == 0 && (c == '{' || c == '}') && rest.head? == some c && next < limit then
        spansFrom limit specs (next + c.utf8Size) rest.tail
      else if c == '}' && specs != 0 then spansFrom limit (specs - 1) next rest
      else if c == '{' then
        let stop := expressionEnd limit 0 none ' ' next rest
        let after := afterExpression limit stop
        let inside := skip limit ':' after
        ⟨next, stop.offset⟩ ::
          if inside.offset != after.offset then
            spansFrom limit (specs + 1) inside.offset inside.rest
          else
            let closed := skip limit '}' after
            spansFrom limit specs closed.offset closed.rest
      else spansFrom limit specs next rest
termination_by cs.length
decreasing_by
  · simp only [List.length_tail, List.length_cons]
    omega
  · simp only [List.length_cons, Nat.lt_add_one]
  · have := length_expressionEnd limit 0 none ' ' (offset + c.utf8Size) rest
    have := length_afterExpression limit (expressionEnd limit 0 none ' ' (offset + c.utf8Size) rest)
    have := length_skip limit ':'
      (afterExpression limit (expressionEnd limit 0 none ' ' (offset + c.utf8Size) rest))
    simp only [List.length_cons]
    omega
  · have := length_expressionEnd limit 0 none ' ' (offset + c.utf8Size) rest
    have := length_afterExpression limit (expressionEnd limit 0 none ' ' (offset + c.utf8Size) rest)
    have := length_skip limit '}'
      (afterExpression limit (expressionEnd limit 0 none ' ' (offset + c.utf8Size) rest))
    simp only [List.length_cons]
    omega
  · simp

/-- Where the inside of a string literal begins and ends, counted from its start: after the prefix
and the opening quotes, and before the closing quotes if they are there. -/
def inside (literal : List Char) : Option Span :=
  let letters := literal.takeWhile (!Piece.isQuote ·)
  match literal.dropWhile (!Piece.isQuote ·) with
  | [] => none
  | quote :: after =>
    let quotes := if after.take 2 == [quote, quote] then 3 else 1
    let body := after.drop (quotes - 1)
    let first := Text.width letters + quotes
    let closed := quotes ≤ body.length && (body.drop (body.length - quotes)).all (· == quote)
    let last := Text.width literal
    some ⟨first, if closed then last - quotes else last⟩

/-- The spans of the expressions in the replacement fields of a string literal that stands at
`offset`; `rest` is the text from there to the end of the module. -/
def spans (literal : List Char) (offset : Nat) (rest : List Char) : List Span :=
  match inside literal with
  | none => []
  | some body =>
    if body.start ≤ body.stop then
      spansFrom (offset + body.stop) 0 (offset + body.start) (Text.dropBytes rest body.start)
    else []

end ReplacementField

end MethodLift.Syntax

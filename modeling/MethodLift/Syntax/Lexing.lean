import MethodLift.Syntax.Piece
import MethodLift.Syntax.Problem

/-!
# From a text to tokens

A text is read piece by piece.  Blanks, comments and joined lines vanish, and the layout of the
lines is made explicit: at the start of a logical line the indentation is compared with that of the
lines around it, which gives `indent` and `dedent` tokens, and its end gives a `newline` token.
Inside brackets lines have no meaning, and lines without any token never count.

The state that is carried from piece to piece is `Layout`.  Each step takes at least one character
or leaves the start of a line, so reading ends.
-/

namespace MethodLift.Syntax

/-- Tokens in order, and what is wrong with the text they were read from. -/
structure Lexed where
  tokens : List Token
  problems : List Problem
deriving DecidableEq, Repr, Inhabited

namespace Lexed

/-- Tokens and problems in front of what was read later. -/
def cons (tokens : List Token) (problems : List Problem) (later : Lexed) : Lexed :=
  ⟨tokens ++ later.tokens, problems ++ later.problems⟩

end Lexed

/-- What reading has to remember between two pieces. -/
structure Layout where
  /-- The number of open brackets. -/
  depth : Nat
  /-- The indentation of the blocks that are open, the innermost first; a module is not indented
  and not listed. -/
  levels : List Nat
  /-- Whether the next piece begins a line whose indentation counts. -/
  lineStart : Bool
  /-- Whether the logical line has a token already. -/
  pending : Bool
deriving DecidableEq, Repr, Inhabited

namespace Layout

/-- The start of a module. -/
def module : Layout := ⟨0, [], true, false⟩

/-- The start of an expression that stands in brackets, where lines have no meaning. -/
def bracketed : Layout := ⟨1, [], false, false⟩

/-- The indentation of the innermost open block. -/
def level (layout : Layout) : Nat := layout.levels.headD 0

/-- The layout after a symbol. -/
def afterSymbol (layout : Layout) (s : Symbol) : Layout :=
  { layout with
    depth := if s.opens then layout.depth + 1 else if s.closes then layout.depth - 1
      else layout.depth
    pending := true }

end Layout

/-! ## Indentation -/

/-- A tab moves to the next multiple of this many columns. -/
def tabWidth : Nat := 8

/-- The column after a blank; a form feed goes back to the first one. -/
def columnAfter (column : Nat) (blank : Char) : Nat :=
  if blank == '\t' then (column / tabWidth + 1) * tabWidth
  else if blank == '\x0c' then 0
  else column + 1

/-- The column that the blanks at the front of a line lead to. -/
def indentationWidth (blanks : List Char) : Nat := blanks.foldl columnAfter 0

/-- What one step of reading contributes, and the layout after it. -/
structure Step where
  tokens : List Token
  problems : List Problem
  next : Layout
deriving DecidableEq, Repr, Inhabited

/-- Compares the indentation of a line, whose blanks lie at `blanks`, with the open blocks. -/
def relevel (layout : Layout) (width : Nat) (blanks : Span) : Step :=
  let started := { layout with lineStart := false }
  if layout.level < width then
    { tokens := [⟨.indent, "", blanks⟩]
      problems := []
      next := { started with levels := width :: layout.levels, pending := false } }
  else if width < layout.level then
    let kept := layout.levels.dropWhile (width < ·)
    let fits := kept.headD 0 == width
    { tokens := (layout.levels.takeWhile (width < ·)).map fun _ =>
        ⟨.dedent, "", .point blanks.stop⟩
      problems := if fits then [] else [⟨.unindentMismatch, blanks⟩]
      next := { started with levels := if fits then kept else width :: kept, pending := false } }
  else { tokens := [], problems := [], next := started }

theorem relevel_lineStart (layout : Layout) (width : Nat) (blanks : Span) :
    (relevel layout width blanks).next.lineStart = false := by
  unfold relevel
  split
  · rfl
  · split <;> rfl

/-! ## Reading a text -/

/-- The kind of a word: reserved, or a name. -/
def wordKind (word : String) : TokenKind :=
  match Keyword.ofText? word with
  | some k => .keyword k
  | none => .name

/-- What a piece at a span contributes, and the layout after it. -/
def contribution (layout : Layout) (piece : Piece) (taken : List Char) (span : Span) : Step :=
  let token (kind : TokenKind) : Token := ⟨kind, String.ofList taken, span⟩
  let inLine := { layout with pending := true }
  match piece with
  | .blank | .comment | .joint => ⟨[], [], layout⟩
  | .lineBreak =>
    if layout.depth == 0 then
      ⟨if layout.pending then [⟨.newline, "", .point span.start⟩] else [], [],
        { layout with pending := false, lineStart := true }⟩
    else ⟨[], [], layout⟩
  | .strayBackslash => ⟨[], [⟨.strayBackslash, span⟩], layout⟩
  | .number => ⟨[token .number], [], inLine⟩
  | .string formatted closed =>
    ⟨[token (if formatted then .fstring else .string)],
      if closed then [] else [⟨.unterminatedString, span⟩], inLine⟩
  | .word => ⟨[token (wordKind (String.ofList taken))], [], inLine⟩
  | .symbol s => ⟨[token (.symbol s)], [], layout.afterSymbol s⟩
  | .unknown => ⟨[token .unknown], [⟨.unexpectedCharacter (taken.headD ' '), span⟩], inLine⟩

/-- The layout tokens at the end of the text. -/
def closing (layout : Layout) (offset : Nat) : List Token :=
  let here : Span := .point offset
  let line : List Token :=
    if layout.depth == 0 && layout.pending then [⟨.newline, "", here⟩] else []
  let blocks : List Token :=
    if layout.depth == 0 then layout.levels.map fun _ => ⟨.dedent, "", here⟩ else []
  line ++ blocks ++ [⟨.endOfFile, "", here⟩]

/-- A line without tokens: what is left of it after its blanks, a comment or nothing, and its line
break. -/
def emptyLine (c : Char) (cs : List Char) : Cut :=
  if c == '#' then
    match (Cut.spanning (!isLineEnd ·) cs).rest with
    | [] => ⟨c :: cs, []⟩
    | d :: ds =>
      ⟨c :: (Cut.spanning (!isLineEnd ·) cs).taken ++ d :: (Piece.afterBreak d ds).taken,
        (Piece.afterBreak d ds).rest⟩
  else (Piece.afterBreak c cs).push c

theorem length_rest_spanning (p : Char → Bool) (cs : List Char) :
    (Cut.spanning p cs).rest.length ≤ cs.length :=
  (List.dropWhile_sublist p).length_le

theorem length_rest_afterBreak (c : Char) (cs : List Char) :
    (Piece.afterBreak c cs).rest.length ≤ cs.length := by
  have whole := congrArg List.length (Piece.afterBreak_append c cs)
  rw [List.length_append] at whole
  omega

theorem length_rest_emptyLine (c : Char) (cs : List Char) :
    (emptyLine c cs).rest.length < (c :: cs).length := by
  unfold emptyLine
  split
  · split
    · simp
    · next d ds rest_eq =>
      have tail := length_rest_spanning (!isLineEnd ·) cs
      rw [rest_eq, List.length_cons] at tail
      have brk := length_rest_afterBreak d ds
      simp only [List.length_cons]
      omega
  · have brk := length_rest_afterBreak c cs
    simp only [Cut.push_rest, List.length_cons]
    omega

/-- Whether a line that goes on with this character has no token. -/
def beginsEmptyLine (c : Char) : Bool := c == '#' || isLineEnd c

/-- Reads the text `cs`, which begins at the byte `offset`. -/
def lexFrom (layout : Layout) (offset : Nat) (cs : List Char) : Lexed :=
  match cs with
  | [] => ⟨closing layout offset, []⟩
  | c :: rest =>
    if layout.lineStart then
      let blanks := Cut.spanning isBlank (c :: rest)
      let first := offset + Text.width blanks.taken
      match _after : blanks.rest with
      | [] => ⟨closing layout first, []⟩
      | d :: ds =>
        if beginsEmptyLine d then
          let line := emptyLine d ds
          lexFrom layout (first + Text.width line.taken) line.rest
        else
          let step := relevel layout (indentationWidth blanks.taken) ⟨offset, first⟩
          (lexFrom step.next first (d :: ds)).cons step.tokens step.problems
    else
      let found := Piece.read c rest
      let stop := offset + Text.width found.2.taken
      let step := contribution layout found.1 found.2.taken ⟨offset, stop⟩
      (lexFrom step.next stop found.2.rest).cons step.tokens step.problems
termination_by (cs.length, layout.lineStart.toNat)
decreasing_by
  · have blanksLength := length_rest_spanning isBlank (c :: rest)
    have lineLength := length_rest_emptyLine d ds
    rw [_after] at blanksLength
    exact Prod.Lex.left _ _ (Nat.lt_of_lt_of_le lineLength blanksLength)
  · have blanksLength := length_rest_spanning isBlank (c :: rest)
    rw [_after] at blanksLength
    rw [relevel_lineStart]
    rcases Nat.lt_or_eq_of_le blanksLength with shorter | same
    · exact Prod.Lex.left _ _ shorter
    · rw [same]
      exact Prod.Lex.right _ (by simp_all)
  · exact Prod.Lex.left _ _ (Piece.read_rest_length c rest)

/-- Reads a whole module. -/
def lex (text : String) : Lexed := lexFrom .module 0 text.toList

/-- Reads an expression that stands in brackets at a byte offset of a larger text. -/
def lexBracketed (offset : Nat) (cs : List Char) : Lexed := lexFrom .bracketed offset cs

end MethodLift.Syntax

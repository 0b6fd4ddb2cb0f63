import MethodLift.Syntax.Children
import MethodLift.Syntax.Lexing

/-!
# Reading trees from tokens

The state that reading a tree carries along, and the steps that everything else is made of: looking
at a token, taking it, noting a problem, completing a node.

Reading never fails.  Where something is missing a problem is noted and a placeholder takes its
place.  Repetition is `collect`, which runs as often as there are tokens left at most; every loop of
the grammar takes a token each time, so that bound is never what ends it.
-/

namespace MethodLift.Syntax

/-- What reading a tree has to remember. -/
structure ParserState where
  /-- The whole text; the fields of formatted strings are read from it. -/
  source : List Char
  /-- The token that is looked at. -/
  current : Token
  /-- The tokens after it. -/
  later : List Token
  /-- Where the last token ended that was taken and is no layout. -/
  lastEnd : Nat
  /-- How deep blocks and expressions are nested. -/
  depth : Nat
  /-- How many expressions are complete. -/
  exprCount : Nat
  /-- How many statements are complete. -/
  stmtCount : Nat
  /-- The problems so far, the last one first. -/
  problems : List Problem
  /-- Expressions that were completed and then not used for the tree, the last one first. -/
  unused : List Expr
deriving Inhabited

/-- A step of reading. -/
abbrev Parser := StateM ParserState

namespace Parser

/-- Blocks and expressions that are nested deeper than this are refused. -/
def maxNesting : Nat := 100

/-! ## Looking -/

/-- The token that is looked at. -/
def token : Parser Token := return (← get).current

/-- Its kind. -/
def kind : Parser TokenKind := return (← get).current.kind

/-- The kind of the token after it. -/
def nextKind : Parser TokenKind := return ((← get).later.head?.map (·.kind)).getD .endOfFile

/-- Whether the token has a kind. -/
def isAt (k : TokenKind) : Parser Bool := return (← kind) == k

/-- Whether the token is a symbol. -/
def atSymbol (s : Symbol) : Parser Bool := isAt (.symbol s)

/-- Whether the token is a reserved word. -/
def atKeyword (k : Keyword) : Parser Bool := isAt (.keyword k)

/-- Where the token starts. -/
def here : Parser Nat := return (← token).span.start

/-- How many tokens are left; a step that leaves this number as it was has taken nothing. -/
def remaining : Parser Nat := return (← get).later.length

/-- The span from an offset to the end of the last token taken. -/
def spanFrom (start : Nat) : Parser Span := return ⟨start, max (← get).lastEnd start⟩

/-- Whether the nesting has reached its limit. -/
def tooDeep : Parser Bool := return maxNesting ≤ (← get).depth

/-! ## Taking -/

/-- The state after the current token; at the end of the text there is nothing to take. -/
def advance (state : ParserState) : ParserState :=
  if state.current.kind == .endOfFile then state
  else
    { state with
      current := state.later.headD ⟨.endOfFile, "", .point state.current.span.stop⟩
      later := state.later.tail
      lastEnd := if state.current.kind.isLayout then state.lastEnd
        else state.current.span.stop }

/-- Takes the current token. -/
def bump : Parser Token := do
  let t ← token
  modify advance
  return t

/-- Takes the token if it has a kind. -/
def eat? (k : TokenKind) : Parser (Option Token) := do
  if ← isAt k then return some (← bump) else return none

/-- Takes the token if it has a kind, and tells whether. -/
def eat (k : TokenKind) : Parser Bool := return (← eat? k).isSome

/-- Takes a symbol if it is there. -/
def eatSymbol (s : Symbol) : Parser Bool := eat (.symbol s)

/-- Takes a reserved word if it is there. -/
def eatKeyword (k : Keyword) : Parser Bool := eat (.keyword k)

/-- Notes a problem at a span. -/
def noteAt (cause : Problem.Cause) (span : Span) : Parser Unit :=
  modify fun state => { state with problems := ⟨cause, span⟩ :: state.problems }

/-- Notes a problem at the current token. -/
def note (cause : Problem.Cause) : Parser Unit := do noteAt cause (← token).span

/-- Takes a symbol that has to be there. -/
def expectSymbol (s : Symbol) : Parser Bool := do
  if ← eatSymbol s then return true
  note (.expectedSymbol s)
  return false

/-- Takes a reserved word that has to be there. -/
def expectKeyword (k : Keyword) : Parser Unit := do
  if ← eatKeyword k then return ()
  note (.expectedKeyword k)

/-- Takes a name if there is one. -/
def name? : Parser (Option Ident) :=
  return (← eat? .name).map fun t => ⟨t.text, t.span⟩

/-- Takes a name that has to be there; where it is not, an empty one stands in for it. -/
def nameOrMissing : Parser Ident := do
  match ← name? with
  | some ident => return ident
  | none =>
    note .expectedName
    return ⟨"", .point (← here)⟩

/-- Passes over at most `n` tokens, up to the end of the logical line. -/
def skipLineAtMost : Nat → Parser Unit
  | 0 => return ()
  | n + 1 => do
    if (← isAt .newline) || (← isAt .endOfFile) then return ()
    let _ ← bump
    skipLineAtMost n

/-- Passes over what is left of the logical line, up to its end. -/
def skipLine : Parser Unit := do skipLineAtMost ((← remaining) + 1)

/-! ## Repeating and nesting -/

/-- Repeats a step until it gives nothing, at most `n` times. -/
def collectAtMost {α : Type} (step : Parser (Option α)) : Nat → Parser (List α)
  | 0 => return []
  | n + 1 => do
    match ← step with
    | none => return []
    | some a => return a :: (← collectAtMost step n)

/-- Repeats a step until it gives nothing.  The step takes a token whenever it gives something. -/
def collect {α : Type} (step : Parser (Option α)) : Parser (List α) := do
  collectAtMost step ((← remaining) + 1)

/-- One thing and those that follow it, each after a separator. -/
def separated {α : Type} (separator : Symbol) (item : Parser (Option α)) : Parser (List α) := do
  match ← item with
  | none => return []
  | some first =>
    let others ← collect do
      if ← eatSymbol separator then item else return none
    return first :: others

/-- The things after the first one of a bracketed list, at most `n` of them: each after a comma, and
a comma may stand before the closing bracket.  A thing that takes no token is the last one. -/
def elementsAtMost {α : Type} (close : Symbol) (item : Parser α) : Nat → Parser (List α)
  | 0 => return []
  | n + 1 => do
    if !(← eatSymbol .comma) then return []
    if ← atSymbol close then return []
    let before ← remaining
    let a ← item
    if (← remaining) == before then return [a]
    return a :: (← elementsAtMost close item n)

/-- The things after the first one of a bracketed list. -/
def elements {α : Type} (close : Symbol) (item : Parser α) : Parser (List α) := do
  elementsAtMost close item ((← remaining) + 1)

/-- Extends a value by a step until the step gives nothing, at most `n` times. -/
def extendAtMost {α : Type} (step : α → Parser (Option α)) : Nat → α → Parser α
  | 0, a => return a
  | n + 1, a => do
    match ← step a with
    | none => return a
    | some b => extendAtMost step n b

/-- Extends a value by a step until the step gives nothing.  The step takes a token whenever it
gives something. -/
def extend {α : Type} (step : α → Parser (Option α)) (a : α) : Parser α := do
  extendAtMost step ((← remaining) + 1) a

/-- Runs a step one level deeper. -/
def nested {α : Type} (step : Parser α) : Parser α := do
  modify fun state => { state with depth := state.depth + 1 }
  let result ← step
  modify fun state => { state with depth := state.depth - 1 }
  return result

/-! ## Completing nodes -/

/-- Completes an expression at a span. -/
def complete (span : Span) (build : Mark → Expr) : Parser Expr := do
  let state ← get
  set { state with exprCount := state.exprCount + 1 }
  return build ⟨state.exprCount, span⟩

/-- Completes an expression that reaches from an offset to the last token taken. -/
def completeFrom (start : Nat) (build : Mark → Expr) : Parser Expr := do
  complete (← spanFrom start) build

/-- Completes a statement at a span. -/
def completeStmt (span : Span) (build : Mark → Stmt) : Parser Stmt := do
  let state ← get
  set { state with stmtCount := state.stmtCount + 1 }
  return build ⟨state.stmtCount, span⟩

/-- Completes a statement that reaches from an offset to the last token taken. -/
def completeStmtFrom (start : Nat) (build : Mark → Stmt) : Parser Stmt := do
  completeStmt (← spanFrom start) build

/-- Remembers expressions that the tree does not use. -/
def discard (es : List Expr) : Parser Unit :=
  modify fun state => { state with unused := es.reverse ++ state.unused }

end Parser

/-! ## Targets -/

namespace Expr

/-- The expression as a target: it and, through tuples, lists and stars, its elements are there to
be assigned to or deleted. -/
def retarget (ctx : Context) : Expr → Expr
  | name m id _ => name m id ctx
  | attr m value ident _ => attr m value ident ctx
  | subscript m value index _ => subscript m value index ctx
  | starred m value _ => starred m (value.retarget ctx) ctx
  | tuple m elements _ parenthesized =>
    tuple m (elements.map fun e => e.retarget ctx) ctx parenthesized
  | list m elements _ => list m (elements.map fun e => e.retarget ctx) ctx
  | e => e
termination_by e => sizeOf e
decreasing_by
  · simp only [starred.sizeOf_spec]
    omega
  · have := List.sizeOf_lt_of_mem ‹_ ∈ elements›
    simp only [tuple.sizeOf_spec]
    omega
  · have := List.sizeOf_lt_of_mem ‹_ ∈ elements›
    simp only [list.sizeOf_spec]
    omega

/-- Where an expression that should be a target is none. -/
def untargetable : Expr → List Span
  | name .. | attr .. | subscript .. | missing .. => []
  | starred _ value _ => value.untargetable
  | tuple _ elements .. | list _ elements _ => elements.flatMap fun e => e.untargetable
  | e => [e.span]
termination_by e => sizeOf e
decreasing_by
  · simp only [starred.sizeOf_spec]
    omega
  · have := List.sizeOf_lt_of_mem ‹_ ∈ elements›
    simp only [tuple.sizeOf_spec]
    omega
  · have := List.sizeOf_lt_of_mem ‹_ ∈ elements›
    simp only [list.sizeOf_spec]
    omega

end Expr

/-- What is wrong with a target that cannot be one. -/
def Context.refusal : Context → Problem.Cause
  | .del => .cannotDelete
  | _ => .cannotAssign

namespace Parser

/-- Makes an expression a target and notes where it cannot be one. -/
def target (ctx : Context) (e : Expr) : Parser Expr := do
  e.untargetable.forM fun span => noteAt ctx.refusal span
  return e.retarget ctx

end Parser

end MethodLift.Syntax

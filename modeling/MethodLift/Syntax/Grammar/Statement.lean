import MethodLift.Syntax.Grammar.Expression

/-!
# Reading statements

Simple statements, which share lines, and compound statements, which hold blocks.  Blocks hold
statements again; as with expressions the circle is cut at the functions that it goes back to,
`Blocks`, and `Blocks.upTo n` ties it `n` times.  Every round costs the word that begins a compound
statement.
-/

namespace MethodLift.Syntax

/-- What statements go back to: the block behind a header, and the `if` that an `elif` is. -/
structure Blocks where
  block : Parser (List Stmt)
  branch : Parser Stmt

namespace Parser

/-! ## Simple statements -/

/-- The operator that an augmented assignment applies. -/
def augmentedOperator? : TokenKind → Option BinaryOp
  | .symbol s =>
    match s with
    | .plusEqual => some .add
    | .minusEqual => some .sub
    | .starEqual => some .mult
    | .atEqual => some .matMult
    | .slashEqual => some .div
    | .doubleSlashEqual => some .floorDiv
    | .percentEqual => some .mod
    | .doubleStarEqual => some .pow
    | .leftShiftEqual => some .leftShift
    | .rightShiftEqual => some .rightShift
    | .barEqual => some .bitOr
    | .circumflexEqual => some .bitXor
    | .amperEqual => some .bitAnd
    | _ => none
  | _ => none

/-- A statement that is a single word. -/
def wordStmt (build : Mark → Stmt) : Parser Stmt := do
  completeStmt (← bump).span build

/-- `return` with a value or without. -/
def returnStmt (rules : Rules) : Parser Stmt := do
  let start := (← bump).span.start
  let value ← if ← canBegin then some <$> expressions rules else pure none
  completeStmtFrom start (.ret · value)

/-- `del`.  The elements of a bare tuple are targets of their own, and the tuple is not used. -/
def deleteStmt (rules : Rules) : Parser Stmt := do
  let start := (← bump).span.start
  let e ← target .del (← operands rules)
  let targets ←
    match e with
    | .tuple _ elements _ false =>
      discard [e]
      pure elements
    | _ => pure [e]
  completeStmtFrom start (.delete · targets)

/-- A name that has to be there; where it is not, the list of names ends. -/
def listedName? (cause : Problem.Cause) : Parser (Option Ident) := do
  match ← name? with
  | some ident => return some ident
  | none =>
    note cause
    return none

/-- `global` and `nonlocal`. -/
def declarationStmt (build : Mark → List Ident → Stmt) : Parser Stmt := do
  let start := (← bump).span.start
  let names ← separated .comma (listedName? .expectedName)
  completeStmtFrom start (build · names)

/-- A dotted name and where it starts. -/
def dottedName? : Parser (Option (String × Nat)) := do
  match ← name? with
  | none => return none
  | some first =>
    let parts ← collect do
      if (← atSymbol .dot) && (← nextKind) == .name then
        let _ ← bump
        return some ("." ++ (← bump).text)
      else return none
    return some (parts.foldl (· ++ ·) first.name, first.span.start)

/-- The name after `as`, if there is one. -/
def asName? : Parser (Option Ident) := do
  if ← eatKeyword .kAs then
    match ← name? with
    | some ident => return some ident
    | none =>
      note .expectedAsName
      return none
  else return none

/-- A single name and where it starts. -/
def plainName? : Parser (Option (String × Nat)) :=
  return (← name?).map fun ident => (ident.name, ident.span.start)

/-- An imported name, dotted or not. -/
def alias? (dotted : Bool) : Parser (Option Alias) := do
  match ← if dotted then dottedName? else plainName? with
  | none => return none
  | some (name, start) =>
    let asname ← asName?
    return some ⟨name, asname, ← spanFrom start⟩

/-- An imported module. -/
def moduleAlias? : Parser (Option Alias) := do
  match ← alias? true with
  | some a => return some a
  | none =>
    note .expectedModuleName
    return none

/-- `import`. -/
def importStmt : Parser Stmt := do
  let start := (← bump).span.start
  let names ← separated .comma moduleAlias?
  completeStmtFrom start (.importModules · names)

/-- How many levels up the next token of a relative import goes. -/
def levelStep? : Parser (Option Nat) := do
  if ← eatSymbol .dot then return some 1
  else if ← eatSymbol .ellipsis then return some 3
  else return none

/-- The names of a `from` import, in parentheses or not. -/
def importedNames : Parser (List Alias) := do
  let inParens ← eatSymbol .leftParen
  let names ← separated .comma (alias? false)
  if names.isEmpty then note .expectedImportedName
  if inParens then
    let _ ← expectSymbol .rightParen
  return names

/-- `from … import …`. -/
def importFromStmt : Parser Stmt := do
  let start := (← bump).span.start
  let level := (← collect levelStep?).foldl Nat.add 0
  let module := (← dottedName?).map (·.1)
  if module.isNone && level == 0 then note .expectedModuleName
  expectKeyword .kImport
  let isStar ← eatSymbol .star
  let names ← if isStar then pure [] else importedNames
  completeStmtFrom start (.importFrom · module level names isStar)

/-- `raise`, with an exception and its cause. -/
def raiseStmt (rules : Rules) : Parser Stmt := do
  let start := (← bump).span.start
  if ← canBegin then
    let exc ← rules.expression
    let cause ← if ← eatKeyword .kFrom then some <$> rules.expression else pure none
    completeStmtFrom start (.raise · (some exc) cause)
  else completeStmtFrom start (.raise · none none)

/-- `assert`, with a message or without. -/
def assertStmt (rules : Rules) : Parser Stmt := do
  let start := (← bump).span.start
  let test ← rules.expression
  let message ← after? .comma rules.expression
  completeStmtFrom start (.assert · test message)

/-- A chain of assignments whose first target was read.  The last value is what is assigned. -/
def assignStmt (rules : Rules) (start : Nat) (first : Expr) : Parser Stmt := do
  let others ← collect (after? .equal (value rules))
  let chain := first :: others
  let assigned := others.getLastD first
  let targets ← chain.dropLast.mapM (target .store)
  completeStmtFrom start (.assign · targets assigned)

/-- A statement that begins with an expression: an assignment of one kind, or the expression. -/
def exprStmt (rules : Rules) : Parser Stmt := do
  let start ← here
  if !((← canBegin) || (← atKeyword .kYield)) then
    note .expectedStatement
    skipLine
    completeStmtFrom start .error
  else
    let first ← value rules
    if ← eatSymbol .colon then
      let first ← target .store first
      let annotation ← rules.expression
      let assigned ← after? .equal (value rules)
      completeStmtFrom start (.annAssign · first annotation assigned)
    else
      match augmentedOperator? (← kind) with
      | some op =>
        let _ ← bump
        let first ← target .store first
        let assigned ← value rules
        completeStmtFrom start (.augAssign · first op assigned)
      | none =>
        if ← atSymbol .equal then assignStmt rules start first
        else completeStmtFrom start (.expr · first)

/-- A statement without blocks. -/
def smallStmt (rules : Rules) : Parser Stmt := do
  match ← kind with
  | .keyword .kPass => wordStmt .pass
  | .keyword .kBreak => wordStmt .breakLoop
  | .keyword .kContinue => wordStmt .continueLoop
  | .keyword .kReturn => returnStmt rules
  | .keyword .kDel => deleteStmt rules
  | .keyword .kGlobal => declarationStmt .global
  | .keyword .kNonlocal => declarationStmt .nonlocal
  | .keyword .kImport => importStmt
  | .keyword .kFrom => importFromStmt
  | .keyword .kRaise => raiseStmt rules
  | .keyword .kAssert => assertStmt rules
  | _ => exprStmt rules

/-- A step that takes at least one token: if it has taken none, one is passed over. -/
def progressing {α : Type} (step : Parser α) : Parser α := do
  let before ← remaining
  let result ← step
  if (← remaining) == before then
    let _ ← bump
  return result

/-- The statements of one logical line, up to and including its end. -/
def simpleStmts (rules : Rules) : Parser (List Stmt) := do
  let first ← progressing (smallStmt rules)
  let others ← collect do
    if ← eatSymbol .semicolon then
      if (← isAt .newline) || (← isAt .endOfFile) then return none
      else return some (← progressing (smallStmt rules))
    else return none
  if !(← eat .newline) then
    if !(← isAt .endOfFile) then
      note .expectedEndOfStatement
      skipLine
      let _ ← eat .newline
  return first :: others

/-! ## Compound statements -/

/-- Passes over tokens until the given number of open blocks has ended, at most `n` of them. -/
def skipBlocksAtMost : Nat → Nat → Parser Unit
  | 0, _ => return ()
  | _ + 1, 0 => return ()
  | n + 1, level + 1 => do
    if ← isAt .endOfFile then return ()
    match (← bump).kind with
    | .indent => skipBlocksAtMost n (level + 2)
    | .dedent => skipBlocksAtMost n level
    | _ => skipBlocksAtMost n (level + 1)

/-- Passes over the rest of a block whose indentation was taken. -/
def skipBlock : Parser Unit := do skipBlocksAtMost ((← remaining) + 1) 1

/-- The block behind a word, if the word is there. -/
def blockAfter (blocks : Blocks) (word : Keyword) : Parser (List Stmt) := do
  if ← eatKeyword word then blocks.block else return []

/-- `if` or `elif`, with what belongs to it. -/
def ifStmt (rules : Rules) (blocks : Blocks) : Parser Stmt := do
  let word ← bump
  let test ← namedExpression rules
  let body ← blocks.block
  let orelse ←
    if ← atKeyword .kElif then
      let inner ← blocks.branch
      pure [inner]
    else blockAfter blocks .kElse
  completeStmtFrom word.span.start
    (.ifElse · (word.kind == .keyword .kElif) test body orelse)

/-- `while`. -/
def whileStmt (rules : Rules) (blocks : Blocks) : Parser Stmt := do
  let start := (← bump).span.start
  let test ← namedExpression rules
  let body ← blocks.block
  let orelse ← blockAfter blocks .kElse
  completeStmtFrom start (.whileLoop · test body orelse)

/-- `for`; an `async` before it was taken at the given offset. -/
def forStmt (rules : Rules) (blocks : Blocks) (async? : Option Nat) : Parser Stmt := do
  let start := (← bump).span.start
  let target ← target .store (← operands rules)
  expectKeyword .kIn
  let iter ← expressions rules
  let body ← blocks.block
  let orelse ← blockAfter blocks .kElse
  completeStmtFrom (async?.getD start) (.forLoop · async?.isSome target iter body orelse)

/-- The exception and the name of an `except`. -/
def handlerHead (rules : Rules) : Parser (Option Expr × Option Ident) := do
  if ← atSymbol .colon then return (none, none)
  let type ← rules.expression
  return (some type, ← asName?)

/-- The next `except` clause. -/
def handler? (rules : Rules) (blocks : Blocks) : Parser (Option (Handler Stmt)) := do
  if !(← atKeyword .kExcept) then return none
  let start := (← bump).span.start
  let _ ← eatSymbol .star
  let (type, name) ← handlerHead rules
  let body ← blocks.block
  return some ⟨type, name, body, ← spanFrom start⟩

/-- `try`. -/
def tryStmt (rules : Rules) (blocks : Blocks) : Parser Stmt := do
  let start := (← bump).span.start
  let body ← blocks.block
  let handlers ← collect (handler? rules blocks)
  let orelse ← blockAfter blocks .kElse
  let finalbody ← blockAfter blocks .kFinally
  if handlers.isEmpty && finalbody.isEmpty then note .expectedHandler
  completeStmtFrom start (.tryBlock · body handlers orelse finalbody)

/-- A context of a `with` and the target that it is bound to. -/
def withItem (rules : Rules) : Parser WithItem := do
  let context ← rules.expression
  let target ←
    if ← eatKeyword .kAs then some <$> (do target .store (← operand rules)) else pure none
  return ⟨context, target⟩

/-- `with`; an `async` before it was taken at the given offset. -/
def withStmt (rules : Rules) (blocks : Blocks) (async? : Option Nat) : Parser Stmt := do
  let start := (← bump).span.start
  let items ← separated .comma (some <$> withItem rules)
  let body ← blocks.block
  completeStmtFrom (async?.getD start) (.withBlock · async?.isSome items body)

/-- A parameter list with its parentheses. -/
def parameters (rules : Rules) : Parser (Parameters Expr) := do
  let opening := (← bump).span
  let ps ← params rules .rightParen true
  let _ ← expectSymbol .rightParen
  let last := (← get).lastEnd
  return ⟨ps, ⟨opening.start, max last opening.stop⟩⟩

/-- The parameter list of a function, which has to be there. -/
def parametersOrMissing (rules : Rules) : Parser (Parameters Expr) := do
  if ← atSymbol .leftParen then parameters rules
  else
    note (.expectedSymbol .leftParen)
    return ⟨[], .point (← here)⟩

/-- A function from the word `def` on; it starts with its decorators or `async`. -/
def functionStmt (rules : Rules) (blocks : Blocks) (decorators : List Expr) (start : Nat)
    (isAsync : Bool) : Parser Stmt := do
  expectKeyword .kDef
  let name ← nameOrMissing
  let params ← parametersOrMissing rules
  let returns ← after? .arrow rules.expression
  let body ← blocks.block
  completeStmtFrom start fun mark =>
    .functionDef ⟨mark, name, decorators, params, returns, body, isAsync⟩

/-- A class from the word `class` on; it starts with its decorators. -/
def classStmt (rules : Rules) (blocks : Blocks) (decorators : List Expr) (start : Nat) :
    Parser Stmt := do
  let _ ← bump
  let name ← nameOrMissing
  let bases ←
    if ← eatSymbol .leftParen then
      let bases ← args rules
      let _ ← expectSymbol .rightParen
      pure bases
    else pure []
  let body ← blocks.block
  completeStmtFrom start fun mark => .classDef ⟨mark, name, decorators, bases, body⟩

/-- The next decorator, with the end of its line. -/
def decorator? (rules : Rules) : Parser (Option Expr) := do
  if !(← eatSymbol .atSign) then return none
  let e ← namedExpression rules
  if !(← eat .newline) then
    note .expectedDecoratorEnd
    skipLine
    let _ ← eat .newline
  return some e

/-- Decorators and the function or class that they belong to.  Where there is none, nothing of the
decorators is used. -/
def decorated (rules : Rules) (blocks : Blocks) : Parser Stmt := do
  let start ← here
  let decorators ← collect (decorator? rules)
  match ← kind with
  | .keyword .kDef => functionStmt rules blocks decorators start false
  | .keyword .kClass => classStmt rules blocks decorators start
  | other =>
    if other == .keyword .kAsync && (← nextKind) == .keyword .kDef then
      let _ ← bump
      functionStmt rules blocks decorators start true
    else
      note .expectedDecorated
      discard (decorators.flatMap (·.descendants))
      completeStmtFrom start .error

/-- What begins with `async`. -/
def asyncStmt (rules : Rules) (blocks : Blocks) : Parser Stmt := do
  let start := (← bump).span.start
  match ← kind with
  | .keyword .kDef => functionStmt rules blocks [] start true
  | .keyword .kFor => forStmt rules blocks (some start)
  | _ => withStmt rules blocks (some start)

/-- Whether a word after `async` begins a statement with it. -/
def followsAsync : TokenKind → Bool
  | .keyword .kDef | .keyword .kFor | .keyword .kWith => true
  | _ => false

/-- A compound statement, or the simple statements of a line. -/
def statement (rules : Rules) (blocks : Blocks) : Parser (List Stmt) := do
  match ← kind with
  | .keyword .kIf => single (ifStmt rules blocks)
  | .keyword .kWhile => single (whileStmt rules blocks)
  | .keyword .kFor => single (forStmt rules blocks none)
  | .keyword .kTry => single (tryStmt rules blocks)
  | .keyword .kWith => single (withStmt rules blocks none)
  | .keyword .kDef => do single (functionStmt rules blocks [] (← here) false)
  | .keyword .kClass => do single (classStmt rules blocks [] (← here))
  | .symbol .atSign => single (decorated rules blocks)
  | .keyword .kAsync =>
    if followsAsync (← nextKind) then single (asyncStmt rules blocks) else simpleStmts rules
  | _ => simpleStmts rules
where
  /-- One statement as a list. -/
  single (step : Parser Stmt) : Parser (List Stmt) := do return [← step]

/-! ## Blocks and modules -/

/-- The next statements of an indented block: none of an empty line or of an unexpected indentation,
and no more at the end of the block. -/
def blockStep? (rules : Rules) (blocks : Blocks) : Parser (Option (List Stmt)) := do
  match ← kind with
  | .dedent | .endOfFile => return none
  | .newline =>
    let _ ← bump
    return some []
  | .indent =>
    note .unexpectedIndent
    let _ ← bump
    return some []
  | _ => return some (← progressing (statement rules blocks))

/-- The block behind a header: the rest of its line, or the indented lines after it. -/
def block (rules : Rules) (blocks : Blocks) : Parser (List Stmt) := do
  if !(← expectSymbol .colon) then
    skipLine
    let _ ← eat .newline
    if ← eat .indent then skipBlock
    return []
  else if !(← eat .newline) then simpleStmts rules
  else if !(← eat .indent) then
    note .expectedBlock
    return []
  else if ← tooDeep then
    note .blockTooDeep
    skipBlock
    return []
  else
    let body ← nested (collect (blockStep? rules blocks))
    let _ ← eat .dedent
    return body.flatten

/-- The next statements of a module. -/
def moduleStep? (rules : Rules) (blocks : Blocks) : Parser (Option (List Stmt)) := do
  match ← kind with
  | .endOfFile => return none
  | .newline | .dedent =>
    let _ ← bump
    return some []
  | .indent =>
    note .unexpectedIndent
    let _ ← bump
    return some []
  | _ => return some (← progressing (statement rules blocks))

/-- Stands in where the circle of the blocks is cut. -/
def exhaustedStmt : Parser Stmt := do
  note .blockTooDeep
  completeStmt (← token).span .error

end Parser

namespace Blocks

/-- The blocks that give up at once. -/
def none : Blocks := ⟨do return [← Parser.exhaustedStmt], Parser.exhaustedStmt⟩

/-- One more round of the circle. -/
def next (rules : Rules) (blocks : Blocks) : Blocks where
  block := Parser.block rules blocks
  branch := Parser.ifStmt rules blocks

/-- The blocks with `n` rounds. -/
def upTo (rules : Rules) (n : Nat) : Blocks := Nat.repeat (next rules) n none

@[simp] theorem upTo_zero (rules : Rules) : upTo rules 0 = none := rfl

@[simp] theorem upTo_succ (rules : Rules) (n : Nat) :
    upTo rules (n + 1) = (upTo rules n).next rules := rfl

end Blocks

/-- The statements of a module. -/
def Parser.moduleBody (rules : Rules) (blocks : Blocks) : Parser (List Stmt) :=
  return (← Parser.collect (Parser.moduleStep? rules blocks)).flatten

end MethodLift.Syntax

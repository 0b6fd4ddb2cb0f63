import MethodLift.Syntax.Grammar.Basic
import MethodLift.Syntax.ReplacementField
import MethodLift.Text.Whitespace

/-!
# Reading expressions

The grammar of expressions, one function for each of its levels.  From the loosest to the tightest:
conditional and lambda, `or`, `and`, `not`, comparison, the binary operators from `|` to `*`, sign
and inversion, power, `await`, and the primaries that end in calls, subscripts and attributes.

The levels call one another in a circle, which is cut at `Rules`: each function takes the rules that
it goes back to as an argument, and `Rules.upTo n` ties the circle `n` times.  Going back always
costs a token, or happens where nothing deeper is read, so as many rounds as the text has bytes are
enough.
-/

namespace MethodLift.Syntax

/-- The levels of the grammar that others go back to. -/
structure Rules where
  expression : Parser Expr
  disjunction : Parser Expr
  negation : Parser Expr
  /-- Binary operators that bind at least as tightly as the given level. -/
  binary : Nat → Parser Expr
  unary : Parser Expr

namespace Parser

/-! ## Which tokens mean what -/

/-- Whether an expression can begin with a token. -/
def beginsExpression : TokenKind → Bool
  | .name | .number | .string | .fstring => true
  | .symbol s =>
    match s with
    | .leftParen | .leftBracket | .leftBrace | .minus | .plus | .tilde | .star | .ellipsis => true
    | _ => false
  | .keyword k =>
    match k with
    | .kNot | .kLambda | .kAwait | .kNone | .kTrue | .kFalse => true
    | _ => false
  | _ => false

/-- The binary operators with their levels, the loosest at 0; power is not among them. -/
def binaryOperator? : TokenKind → Option (BinaryOp × Nat)
  | .symbol s =>
    match s with
    | .bar => some (.bitOr, 0)
    | .circumflex => some (.bitXor, 1)
    | .amper => some (.bitAnd, 2)
    | .leftShift => some (.leftShift, 3)
    | .rightShift => some (.rightShift, 3)
    | .plus => some (.add, 4)
    | .minus => some (.sub, 4)
    | .star => some (.mult, 5)
    | .atSign => some (.matMult, 5)
    | .slash => some (.div, 5)
    | .doubleSlash => some (.floorDiv, 5)
    | .percent => some (.mod, 5)
    | _ => none
  | _ => none

/-- The signs and the inversion. -/
def unaryOperator? : TokenKind → Option UnaryOp
  | .symbol .plus => some .plus
  | .symbol .minus => some .minus
  | .symbol .tilde => some .invert
  | _ => none

/-- Whether a token that begins no expression is left for others to take: closing brackets, layout,
and what separates expressions. -/
def endsExpression : TokenKind → Bool
  | .newline | .indent | .dedent | .endOfFile => true
  | .symbol s =>
    match s with
    | .rightParen | .rightBracket | .rightBrace | .comma | .colon => true
    | _ => false
  | _ => false

/-- Whether an expression can begin at the current token. -/
def canBegin : Parser Bool := return beginsExpression (← kind)

/-! ## Stars, walruses and lists -/

/-- A starred operand, or else what `other` reads. -/
def starredOr (rules : Rules) (other : Parser Expr) : Parser Expr := do
  if ← atSymbol .star then
    let start := (← bump).span.start
    let value ← rules.binary 0
    completeFrom start (.starred · value .load)
  else other

/-- An expression, or a name that gets a value on the way. -/
def namedExpression (rules : Rules) : Parser Expr := do
  if (← isAt .name) && (← nextKind) == .symbol .colonEqual then
    let t ← bump
    let target ← complete t.span (.name · t.text .store)
    let _ ← bump
    let value ← rules.expression
    completeFrom t.span.start (.named · target value)
  else rules.expression

/-- An element of a list: starred, named, or an expression. -/
def element (rules : Rules) : Parser Expr := starredOr rules (namedExpression rules)

/-- A target of a loop or of `del`, which ends before `in`. -/
def operand (rules : Rules) : Parser Expr := starredOr rules (rules.binary 0)

/-- One thing, or a tuple of several that are separated by commas, without parentheses.  A comma at
the end makes a tuple too. -/
def tupleOf (item : Parser Expr) (mayFollow : Parser Bool) : Parser Expr := do
  let first ← item
  if !(← atSymbol .comma) then return first
  let others ← collect do
    if (← eatSymbol .comma) && (← mayFollow) then return some (← item) else return none
  completeFrom first.span.start (.tuple · (first :: others) .load false)

/-- An expression or a bare tuple of elements. -/
def expressions (rules : Rules) : Parser Expr := tupleOf (element rules) canBegin

/-- A target or a bare tuple of targets, read as what it looks like. -/
def operands (rules : Rules) : Parser Expr := tupleOf (operand rules) canBegin

/-- `yield`, with a value, without one, or from another generator. -/
def yieldExpression (rules : Rules) : Parser Expr := do
  let start := (← bump).span.start
  if ← eatKeyword .kFrom then
    let value ← rules.expression
    completeFrom start (.yieldFrom · value)
  else
    let value ← if ← canBegin then some <$> expressions rules else pure none
    completeFrom start (.yield · value)

/-- What may stand on a line of its own or to the right of an equals sign. -/
def value (rules : Rules) : Parser Expr := do
  if ← atKeyword .kYield then yieldExpression rules else expressions rules

/-! ## Parameters and lambdas -/

/-- The kind and the name of the parameter at the current token; none if there is no parameter. -/
def paramHead? : Parser (Option (ParamKind × Option Ident)) := do
  match ← kind with
  | .symbol .slash =>
    let _ ← bump
    return some (.positionalOnlyMark, none)
  | .symbol .star =>
    let _ ← bump
    match ← name? with
    | some ident => return some (.varPositional, some ident)
    | none => return some (.keywordOnlyMark, none)
  | .symbol .doubleStar =>
    let _ ← bump
    return some (.varKeyword, some (← nameOrMissing))
  | .name => return some (.regular, ← name?)
  | _ =>
    note .expectedParameter
    return none

/-- What follows a symbol, if the symbol is there. -/
def after? (s : Symbol) (step : Parser Expr) : Parser (Option Expr) := do
  if ← eatSymbol s then return some (← step) else return none

/-- The next parameter before `close`. -/
def param? (rules : Rules) (close : Symbol) (annotated : Bool) :
    Parser (Option (Param Expr)) := do
  if (← atSymbol close) || (← isAt .endOfFile) then return none
  let start ← here
  match ← paramHead? with
  | none => return none
  | some (kind, name) =>
    let annotation ←
      if annotated && name.isSome then after? .colon rules.expression else pure none
    let default ← if kind == .regular then after? .equal rules.expression else pure none
    return some ⟨kind, name, annotation, default, ← spanFrom start⟩

/-- The parameters up to `close`, which is left. -/
def params (rules : Rules) (close : Symbol) (annotated : Bool) : Parser (List (Param Expr)) :=
  separated .comma (param? rules close annotated)

/-- A `lambda`. -/
def lambda (rules : Rules) : Parser Expr := do
  let start := (← bump).span.start
  let paramsStart ← here
  let ps ← params rules .colon false
  let paramsSpan ← spanFrom paramsStart
  let _ ← expectSymbol .colon
  let body ← rules.expression
  completeFrom start (.lambda · ⟨ps, paramsSpan⟩ body)

/-! ## Comprehensions -/

/-- Whether a clause of a comprehension begins here. -/
def atGenerator : Parser Bool := do
  return (← atKeyword .kFor) || ((← atKeyword .kAsync) && (← nextKind) == .keyword .kFor)

/-- The next clause of a comprehension. -/
def generator? (rules : Rules) : Parser (Option (Generator Expr)) := do
  if !(← atGenerator) then return none
  let start ← here
  let isAsync ← eatKeyword .kAsync
  let _ ← bump
  let target ← target .store (← operands rules)
  expectKeyword .kIn
  let iter ← rules.disjunction
  let conditions ← collect do
    if ← eatKeyword .kIf then return some (← rules.disjunction) else return none
  return some ⟨target, iter, conditions, isAsync, ← spanFrom start⟩

/-- The clauses of a comprehension. -/
def generators (rules : Rules) : Parser (List (Generator Expr)) := collect (generator? rules)

/-- Completes a comprehension up to its closing bracket. -/
def comprehension (rules : Rules) (start : Nat) (close : Symbol) (kind : ComprehensionKind)
    (element : Expr) (value : Option Expr) : Parser Expr := do
  let clauses ← generators rules
  let _ ← expectSymbol close
  completeFrom start (.comprehension · kind element value clauses)

/-! ## Brackets -/

/-- Parentheses: nothing, a `yield`, a comprehension, an expression, or a tuple.  The parentheses
around a single expression become part of its span. -/
def parenthesized (rules : Rules) : Parser Expr := do
  let start := (← bump).span.start
  if ← eatSymbol .rightParen then completeFrom start (.tuple · [] .load true)
  else if ← atKeyword .kYield then
    let e ← yieldExpression rules
    let _ ← expectSymbol .rightParen
    return e.withSpan (← spanFrom start)
  else
    let first ← element rules
    if ← atGenerator then comprehension rules start .rightParen .generator first none
    else if !(← atSymbol .comma) then
      let _ ← expectSymbol .rightParen
      return first.withSpan (← spanFrom start)
    else
      let others ← elements .rightParen (element rules)
      let _ ← expectSymbol .rightParen
      completeFrom start (.tuple · (first :: others) .load true)

/-- Square brackets: a list or a comprehension. -/
def bracketed (rules : Rules) : Parser Expr := do
  let start := (← bump).span.start
  if ← eatSymbol .rightBracket then completeFrom start (.list · [] .load)
  else
    let first ← element rules
    if ← atGenerator then comprehension rules start .rightBracket .list first none
    else
      let others ← elements .rightBracket (element rules)
      let _ ← expectSymbol .rightBracket
      completeFrom start (.list · (first :: others) .load)

/-- The rest of an entry of a dictionary whose key, if it has one, was read. -/
def dictItem (rules : Rules) (key : Option Expr) : Parser (DictItem Expr) := do
  match key with
  | some key =>
    let _ ← expectSymbol .colon
    return ⟨some key, ← rules.expression⟩
  | none =>
    let _ ← expectSymbol .doubleStar
    return ⟨none, ← rules.binary 0⟩

/-- An entry of a dictionary. -/
def laterDictItem (rules : Rules) : Parser (DictItem Expr) := do
  let key ← if ← atSymbol .doubleStar then pure none else some <$> rules.expression
  dictItem rules key

/-- What follows the first element of braces that hold a set. -/
def setAfter (rules : Rules) (start : Nat) (first : Expr) : Parser Expr := do
  if ← atGenerator then comprehension rules start .rightBrace .set first none
  else
    let others ← elements .rightBrace (element rules)
    let _ ← expectSymbol .rightBrace
    completeFrom start (.set · (first :: others))

/-- What follows the first key of braces that hold a dictionary. -/
def dictAfter (rules : Rules) (start : Nat) (key : Option Expr) : Parser Expr := do
  let first ← dictItem rules key
  match first.key with
  | some key =>
    if ← atGenerator then comprehension rules start .rightBrace .dict key (some first.value)
    else others first
  | none => others first
where
  /-- The entries after the first one. -/
  others (first : DictItem Expr) : Parser Expr := do
    let items ← elements .rightBrace (laterDictItem rules)
    let _ ← expectSymbol .rightBrace
    completeFrom start (.dict · (first :: items))

/-- Braces: a dictionary, a set, or a comprehension of one of them. -/
def braced (rules : Rules) : Parser Expr := do
  let start := (← bump).span.start
  if ← eatSymbol .rightBrace then completeFrom start (.dict · [])
  else if ← atSymbol .doubleStar then dictAfter rules start none
  else
    let first ← element rules
    if ← atSymbol .colon then dictAfter rules start (some first)
    else setAfter rules start first

/-! ## Strings -/

/-- The expression in a replacement field; none if the field is blank or nested too deeply.  The
field is read as a text of its own, with its offsets in the whole text. -/
def field? (rules : Rules) (span : Span) : Parser (Option Expr) := do
  let outside ← get
  let text := Text.slice outside.source span
  if text.all Text.isWhitespace || (← tooDeep) then return none
  let lexed := lexBracketed span.start text
  set { outside with
    current := lexed.tokens.headD ⟨.endOfFile, "", .point span.stop⟩
    later := lexed.tokens.tail
    problems := lexed.problems.reverse ++ outside.problems }
  let e ← nested (value rules)
  if !(← isAt .endOfFile) then note .unexpectedInField
  modify fun state =>
    { state with
      current := outside.current
      later := outside.later
      lastEnd := outside.lastEnd }
  return some e

/-- Whether the letters before the quotes of a string ask for bytes. -/
def isBytesLiteral (text : String) : Bool :=
  (text.toList.takeWhile (!Piece.isQuote ·)).any fun c => c == 'b' || c == 'B'

/-- One string token. -/
def stringToken? : Parser (Option Token) := do
  if (← isAt .string) || (← isAt .fstring) then return some (← bump) else return none

/-- Adjacent strings make one.  It is formatted if one of them is, and else bytes if one of them
is. -/
def strings (rules : Rules) : Parser Expr := do
  let start ← here
  let tokens ← collect stringToken?
  let span ← spanFrom start
  let formatted := tokens.filter (·.kind == .fstring)
  if formatted.isEmpty then
    let kind := if tokens.any (isBytesLiteral ·.text) then ConstantKind.bytes else .string
    complete span (.constant · kind)
  else
    let source := (← get).source
    let fields := formatted.flatMap fun t =>
      ReplacementField.spans t.text.toList t.span.start (Text.dropBytes source t.span.start)
    let values ← fields.filterMapM (field? rules)
    complete span (.fstring · values)

/-! ## Atoms and primaries -/

/-- A constant that is one token. -/
def constant (kind : ConstantKind) : Parser Expr := do
  let t ← bump
  complete t.span (.constant · kind)

/-- What stands for itself: a name, a constant, or something in brackets. -/
def atom (rules : Rules) : Parser Expr := do
  match ← kind with
  | .name =>
    let t ← bump
    complete t.span (.name · t.text .load)
  | .number => constant .number
  | .string | .fstring => strings rules
  | .symbol .ellipsis => constant .ellipsis
  | .keyword .kNone => constant .none
  | .keyword .kTrue => constant .true
  | .keyword .kFalse => constant .false
  | .symbol .leftParen => parenthesized rules
  | .symbol .leftBracket => bracketed rules
  | .symbol .leftBrace => braced rules
  | other =>
    note .expectedExpression
    let span := (← token).span
    if !endsExpression other then
      let _ ← bump
    complete span .missing

/-- The next argument of a call. -/
def arg? (rules : Rules) : Parser (Option (Arg Expr)) := do
  if (← atSymbol .rightParen) || (← isAt .endOfFile) then return none
  let start ← here
  match ← kind with
  | .symbol .star =>
    let _ ← bump
    let value ← rules.expression
    return some ⟨.star, value, ← spanFrom start⟩
  | .symbol .doubleStar =>
    let _ ← bump
    let value ← rules.expression
    return some ⟨.doubleStar, value, ← spanFrom start⟩
  | _ =>
    if (← isAt .name) && (← nextKind) == .symbol .equal then
      let t ← bump
      let _ ← bump
      let value ← rules.expression
      return some ⟨.keyword ⟨t.text, t.span⟩, value, ← spanFrom start⟩
    else
      let first ← namedExpression rules
      let value ←
        if ← atGenerator then
          let clauses ← generators rules
          completeFrom start (.comprehension · .generator first none clauses)
        else pure first
      return some ⟨.positional, value, ← spanFrom start⟩

/-- The arguments of a call, up to the closing parenthesis. -/
def args (rules : Rules) : Parser (List (Arg Expr)) := separated .comma (arg? rules)

/-- A part of a slice, if there is one. -/
def bound? (rules : Rules) : Parser (Option Expr) := do
  if ← canBegin then return some (← rules.expression) else return none

/-- What follows the lower bound of a slice. -/
def sliceAfter (rules : Rules) (start : Nat) (lower : Option Expr) : Parser Expr := do
  let _ ← bump
  let upper ← bound? rules
  let step ← if ← eatSymbol .colon then bound? rules else pure none
  completeFrom start (.slice · lower upper step)

/-- An index or a slice. -/
def subscriptItem (rules : Rules) : Parser Expr := do
  let start ← here
  if ← atSymbol .colon then sliceAfter rules start none
  else
    let e ← element rules
    if ← atSymbol .colon then sliceAfter rules start (some e) else return e

/-- What stands in the brackets of a subscript. -/
def subscriptItems (rules : Rules) : Parser Expr :=
  tupleOf (subscriptItem rules) do return !(← atSymbol .rightBracket)

/-- A primary with one more call, subscript or attribute, if one follows. -/
def extension? (rules : Rules) (e : Expr) : Parser (Option Expr) := do
  let start := e.span.start
  match ← kind with
  | .symbol .leftParen =>
    let _ ← bump
    let arguments ← args rules
    let _ ← expectSymbol .rightParen
    return some (← completeFrom start (.call · e arguments))
  | .symbol .leftBracket =>
    let _ ← bump
    let index ← subscriptItems rules
    let _ ← expectSymbol .rightBracket
    return some (← completeFrom start (.subscript · e index .load))
  | .symbol .dot =>
    let _ ← bump
    let ident ← nameOrMissing
    return some (← completeFrom start (.attr · e ident .load))
  | _ => return none

/-- An atom with its calls, subscripts and attributes. -/
def primary (rules : Rules) : Parser Expr := do extend (extension? rules) (← atom rules)

/-! ## Operators -/

/-- A primary, awaited or not, and the power it is raised to. -/
def power (rules : Rules) : Parser Expr := do
  let base ←
    if ← atKeyword .kAwait then
      let start := (← bump).span.start
      let value ← primary rules
      completeFrom start (.await · value)
    else primary rules
  if ← eatSymbol .doubleStar then
    let right ← nested rules.unary
    completeFrom base.span.start (.binary · base .pow right)
  else return base

/-- A power with signs and inversions before it. -/
def unary (rules : Rules) : Parser Expr := do
  if ← tooDeep then rules.expression
  else
    match unaryOperator? (← kind) with
    | none => power rules
    | some op =>
      let start := (← bump).span.start
      let operand ← nested rules.unary
      completeFrom start (.unary · op operand)

/-- The left operand with one more operator of the level and its right operand. -/
def binaryStep? (rules : Rules) (level : Nat) (left : Expr) : Parser (Option Expr) := do
  match binaryOperator? (← kind) with
  | none => return none
  | some (op, opLevel) =>
    if opLevel < level then return none
    let _ ← bump
    let right ← rules.binary (opLevel + 1)
    return some (← completeFrom left.span.start (.binary · left op right))

/-- Binary operators of a level and above, to the left first. -/
def binary (rules : Rules) (level : Nat) : Parser Expr := do
  extend (binaryStep? rules level) (← unary rules)

/-- Takes a comparison operator, if there is one. -/
def compareOperator? : Parser (Option CompareOp) := do
  match ← kind with
  | .symbol .less => take .lt
  | .symbol .greater => take .gt
  | .symbol .equalEqual => take .eq
  | .symbol .greaterEqual => take .ge
  | .symbol .lessEqual => take .le
  | .symbol .notEqual => take .notEq
  | .keyword .kIn => take .in
  | .keyword .kNot =>
    if (← nextKind) == .keyword .kIn then
      let _ ← bump
      take .notIn
    else return none
  | .keyword .kIs =>
    let _ ← bump
    if ← eatKeyword .kNot then return some .isNot else return some .is
  | _ => return none
where
  /-- Takes one token for an operator. -/
  take (op : CompareOp) : Parser (Option CompareOp) := do
    let _ ← bump
    return some op

/-- Operands with comparison operators between them. -/
def comparison (rules : Rules) : Parser Expr := do
  let left ← binary rules 0
  let pairs ← collect do
    match ← compareOperator? with
    | none => return none
    | some op => return some (op, ← rules.binary 0)
  if pairs.isEmpty then return left
  completeFrom left.span.start (.compare · left (pairs.map (·.1)) (pairs.map (·.2)))

/-- A comparison with `not` before it or without. -/
def negation (rules : Rules) : Parser Expr := do
  if ← atKeyword .kNot then
    if ← tooDeep then rules.expression
    else
      let start := (← bump).span.start
      let operand ← nested rules.negation
      completeFrom start (.unary · .not operand)
  else comparison rules

/-- Operands joined by one of the words `and` and `or`. -/
def joined (word : Keyword) (op : BoolOp) (item : Parser Expr) : Parser Expr := do
  let first ← item
  if !(← atKeyword word) then return first
  let others ← collect do
    if ← eatKeyword word then return some (← item) else return none
  completeFrom first.span.start (.boolean · op (first :: others))

/-- Operands joined by `and`. -/
def conjunction (rules : Rules) : Parser Expr := joined .kAnd .and (negation rules)

/-- Operands joined by `or`. -/
def disjunction (rules : Rules) : Parser Expr := joined .kOr .or (conjunction rules)

/-- A conditional, a lambda, or anything tighter. -/
def conditional (rules : Rules) : Parser Expr := do
  if ← atKeyword .kLambda then lambda rules
  else
    let body ← disjunction rules
    if ← eatKeyword .kIf then
      let test ← disjunction rules
      expectKeyword .kElse
      let orelse ← rules.expression
      completeFrom body.span.start (.conditional · test body orelse)
    else return body

/-- An expression, unless it is nested too deeply: then a token is passed over. -/
def expression (rules : Rules) : Parser Expr := do
  if ← tooDeep then
    note .expressionTooDeep
    let span := (← token).span
    if !((← isAt .newline) || (← isAt .endOfFile)) then
      let _ ← bump
    complete span .missing
  else nested (conditional rules)

/-- Stands in where the circle of the rules is cut. -/
def exhausted : Parser Expr := do
  note .expressionTooDeep
  complete (← token).span .missing

end Parser

namespace Rules

/-- The rules that give up at once. -/
def none : Rules :=
  ⟨Parser.exhausted, Parser.exhausted, Parser.exhausted, fun _ => Parser.exhausted,
    Parser.exhausted⟩

/-- One more round of the circle. -/
def next (rules : Rules) : Rules where
  expression := Parser.expression rules
  disjunction := Parser.disjunction rules
  negation := Parser.negation rules
  binary := Parser.binary rules
  unary := Parser.unary rules

/-- The rules with `n` rounds. -/
def upTo (n : Nat) : Rules := Nat.repeat next n none

@[simp] theorem upTo_zero : upTo 0 = none := rfl

@[simp] theorem upTo_succ (n : Nat) : upTo (n + 1) = (upTo n).next := rfl

end Rules

end MethodLift.Syntax

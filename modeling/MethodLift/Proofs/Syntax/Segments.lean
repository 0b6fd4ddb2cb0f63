import MethodLift.Proofs.Syntax.Trees

/-!
# How nodes are written

A node is written as a sequence of segments: words and symbols, names, and the expressions and
statements directly inside it (`Expr.segments`, `Stmt.segments`).

What may stand where an expression is expected is told by a `Position`.  An operand has to bind at
least as tightly as its position requires.  Tightness is counted as in the table of operators:

* 1 for `lambda` and for conditionals,
* 2 for `or`, 3 for `and`, 4 for `not`, 5 for comparisons,
* 6 to 11 for `|`, for `^`, for `&`, for shifts, for `+` and `-`, and for `*`, `@`, `/`, `//`, `%`,
* 12 for signs and `~`, 13 for `**`, 14 for `await`,
* 15 for primaries: names, constants, calls, and whatever has brackets of its own.

The left operand of a binary operator may be of the operator's own level and the right one has to be
tighter, which makes the operators associate to the left.  A power wants `await` or a primary on its
left and takes a sign on its right.

Some marks are optional where it does not matter whether they are there: a comma behind the last
thing of a list, the colon before a step that a slice does not have, parentheses around no bases or
around imported names, the ends of lines and the semicolons between statements.
-/

namespace MethodLift.Syntax

/-! ## Operators -/

namespace BinaryOp

/-- How a binary operator is written. -/
def symbol : BinaryOp → Symbol
  | add => .plus
  | sub => .minus
  | mult => .star
  | matMult => .atSign
  | div => .slash
  | floorDiv => .doubleSlash
  | mod => .percent
  | pow => .doubleStar
  | leftShift => .leftShift
  | rightShift => .rightShift
  | bitOr => .bar
  | bitXor => .circumflex
  | bitAnd => .amper

/-- How a binary operator is written that an assignment applies. -/
def assigning : BinaryOp → Symbol
  | add => .plusEqual
  | sub => .minusEqual
  | mult => .starEqual
  | matMult => .atEqual
  | div => .slashEqual
  | floorDiv => .doubleSlashEqual
  | mod => .percentEqual
  | pow => .doubleStarEqual
  | leftShift => .leftShiftEqual
  | rightShift => .rightShiftEqual
  | bitOr => .barEqual
  | bitXor => .circumflexEqual
  | bitAnd => .amperEqual

/-- How tightly a binary operator binds. -/
def tightness : BinaryOp → ℕ
  | bitOr => 6
  | bitXor => 7
  | bitAnd => 8
  | leftShift | rightShift => 9
  | add | sub => 10
  | mult | matMult | div | floorDiv | mod => 11
  | pow => 13

/-- How tightly the left operand has to bind. -/
def leftTightness : BinaryOp → ℕ
  | pow => 14
  | op => op.tightness

/-- How tightly the right operand has to bind. -/
def rightTightness : BinaryOp → ℕ
  | pow => 12
  | op => op.tightness + 1

end BinaryOp

namespace UnaryOp

/-- How a unary operator is written. -/
def word : UnaryOp → TokenKind
  | not => .keyword .kNot
  | plus => .symbol .plus
  | minus => .symbol .minus
  | invert => .symbol .tilde

/-- How tightly a unary operator binds, and its operand has to. -/
def tightness : UnaryOp → ℕ
  | not => 4
  | _ => 12

end UnaryOp

namespace BoolOp

/-- How `and` and `or` are written. -/
def word : BoolOp → Keyword
  | and => .kAnd
  | or => .kOr

/-- How tightly `and` and `or` bind. -/
def tightness : BoolOp → ℕ
  | or => 2
  | and => 3

end BoolOp

/-- How a comparison operator is written; two of them are two words. -/
def CompareOp.words : CompareOp → List TokenKind
  | .eq => [.symbol .equalEqual]
  | .notEq => [.symbol .notEqual]
  | .lt => [.symbol .less]
  | .le => [.symbol .lessEqual]
  | .gt => [.symbol .greater]
  | .ge => [.symbol .greaterEqual]
  | .is => [.keyword .kIs]
  | .isNot => [.keyword .kIs, .keyword .kNot]
  | .in => [.keyword .kIn]
  | .notIn => [.keyword .kNot, .keyword .kIn]

/-! ## Places -/

/-- What kind of thing an expression is to those around it. -/
inductive Shape
  /-- An expression that binds as tightly as the level. -/
  | operand (level : ℕ)
  /-- A name that gets a value on the way. -/
  | named
  | starred
  /-- A comprehension without brackets of its own. -/
  | generator
  | yield
  | slice
  /-- A tuple without parentheses. -/
  | bareTuple
  /-- No expression at all. -/
  | missing
deriving DecidableEq

/-- The kinds of things that are no operands. -/
def Shape.others : List Shape := [named, starred, generator, yield, slice, bareTuple, missing]

/-- The kind of thing that an expression is. -/
def Expr.shape : Expr → Shape
  | lambda .. | conditional .. => .operand 1
  | boolean _ op _ => .operand op.tightness
  | compare .. => .operand 5
  | binary _ _ op _ => .operand op.tightness
  | unary _ op _ => .operand op.tightness
  | await .. => .operand 14
  | named .. => .named
  | starred .. => .starred
  | comprehension _ .generator .. => .generator
  | yield .. | yieldFrom .. => .yield
  | slice .. => .slice
  | tuple _ _ _ false => .bareTuple
  | missing .. => .missing
  | _ => .operand 15

/-- What is expected where an expression stands. -/
inductive Position
  /-- An expression that binds at least as tightly as the level. -/
  | operand (level : ℕ)
  /-- An expression, or a name that gets a value on the way. -/
  | named
  /-- The same, or something starred. -/
  | element
  /-- The same without the star, or a comprehension without brackets. -/
  | argument
  /-- What stands in parentheses. -/
  | enclosed
  /-- One target of an assignment, a loop or a `del`. -/
  | target
  /-- An index or a slice. -/
  | item
  /-- An element, or several in a bare tuple. -/
  | expressions
  /-- A target, or several in a bare tuple. -/
  | targets
  /-- What stands in the brackets of a subscript. -/
  | subscript
  /-- What stands on a line of its own. -/
  | value
deriving DecidableEq

namespace Position

/-- Where the elements of a bare tuple stand. -/
def inner : Position → Position
  | targets => target
  | subscript => item
  | _ => element

/-- How tightly an expression has to bind that stands in a place. -/
def least : Position → ℕ
  | operand level => level
  | target | targets => 6
  | _ => 1

/-- What may stand in a place without parentheses. -/
def admits (p : Position) : Shape → Bool
  | .operand level => p.least ≤ level
  | .named => p ∈ [named, element, argument, enclosed, item, expressions, subscript, value]
  | .starred => p ∈ [element, enclosed, target, item, expressions, targets, subscript, value]
  | .generator => p ∈ [argument, enclosed]
  | .yield => p ∈ [enclosed, value]
  | .slice => p ∈ [item, subscript]
  | .bareTuple => p ∈ [expressions, targets, subscript, value]
  | .missing => false

/-- Whatever may stand in the first place may stand in the second one, in the same form. -/
structure Within (p q : Position) : Prop where
  admits : ∀ shape, p.admits shape = true → q.admits shape = true
  inner : p.admits .bareTuple = true → p.inner = q.inner

/-- Two places are compared on operands by what they ask for, and on all else by trying. -/
lemma within_iff {p q : Position} : p.Within q ↔ q.least ≤ p.least
    ∧ (∀ shape ∈ Shape.others, p.admits shape = true → q.admits shape = true)
    ∧ (p.admits .bareTuple = true → p.inner = q.inner) := by
  refine ⟨fun h => ⟨?_, fun shape _ => h.admits shape, h.inner⟩, fun ⟨least, others, inner⟩ => ?_⟩
  · exact of_decide_eq_true (h.admits (.operand p.least) (decide_eq_true (Nat.le_refl _)))
  · refine ⟨fun shape there => ?_, inner⟩
    cases shape with
    | operand level => exact decide_eq_true (Nat.le_trans least (of_decide_eq_true there))
    | _ => exact others _ (by decide) there

instance (p q : Position) : Decidable (p.Within q) := decidable_of_iff' _ within_iff

/-- An operand may stand wherever no tighter one is asked for. -/
lemma operand_within {level : ℕ} {q : Position} (le : q.least ≤ level) :
    (operand level).Within q := by
  refine ⟨fun shape there => ?_, nofun⟩
  cases shape with
  | operand => exact decide_eq_true (Nat.le_trans le (of_decide_eq_true there))
  | _ => nomatch there

end Position

/-! ## Segments -/

/-- A part of the written form of a node. -/
inductive Segment
  /-- A token of a kind. -/
  | token (kind : TokenKind)
  /-- Tokens of these kinds, all of them or none. -/
  | optional (kinds : List TokenKind)
  /-- The token of a name that is an expression. -/
  | id (text : String)
  /-- The token of a name that is none. -/
  | name (ident : Ident)
  /-- Names with dots between them. -/
  | path (dotted : String)
  /-- Dots that say how many levels up an import goes. -/
  | dots (level : ℕ)
  /-- Layout and semicolons. -/
  | gap
  /-- Adjacent strings; those that make a formatted string have no kind. -/
  | strings (kind : Option ConstantKind)
  /-- An expression in a replacement field, which is inside a string token. -/
  | field (e : Expr)
  | part (position : Position) (e : Expr)
  | stmt (s : Stmt)

namespace Segment

/-- A reserved word. -/
abbrev word (k : Keyword) : Segment := .token (.keyword k)

/-- A symbol. -/
abbrev sign (s : Symbol) : Segment := .token (.symbol s)

/-- An operand. -/
abbrev operand (level : ℕ) (e : Expr) : Segment := .part (.operand level) e

/-- Things with commas between them, and maybe one behind them. -/
def list : List (List Segment) → List Segment
  | [] => []
  | first :: others =>
    first ++ others.flatMap (fun item => sign .comma :: item) ++ [.optional [.symbol .comma]]

/-- Expressions with commas between them, and maybe one behind them. -/
def parts (p : Position) (es : List Expr) : List Segment := list (es.map fun e => [.part p e])

/-- Expressions with a token between each two. -/
def joined (kind : TokenKind) (p : Position) : List Expr → List Segment
  | [] => []
  | first :: others => .part p first :: others.flatMap fun e => [.token kind, .part p e]

/-- What is compared, each behind its operator. -/
def compared : List CompareOp → List Expr → List Segment
  | op :: ops, e :: es => op.words.map .token ++ operand 6 e :: compared ops es
  | [], es => es.map (operand 6)
  | _, [] => []

/-- An expression behind a symbol, if there is one. -/
def after (s : Symbol) (p : Position) : Option Expr → List Segment
  | none => []
  | some e => [sign s, .part p e]

/-- An expression behind a reserved word, if there is one. -/
def afterWord (k : Keyword) (p : Position) : Option Expr → List Segment
  | none => []
  | some e => [word k, .part p e]

/-- An expression that may be there. -/
def maybe (p : Position) (o : Option Expr) : List Segment := o.toList.map (.part p)

/-- Statements, each with what separates it from the next one. -/
def lines (ss : List Stmt) : List Segment := ss.flatMap fun s => [.stmt s, .gap]

/-- The block behind a header. -/
def block (ss : List Stmt) : List Segment := sign .colon :: .gap :: lines ss

/-- A block behind a word, or what stands in its place. -/
def blockAfter (k : Keyword) (ss : List Stmt) : List Segment :=
  .optional [.keyword k, .symbol .colon] :: .gap :: lines ss

end Segment

open Segment (sign word)

/-- How an argument is written. -/
def Arg.segments (a : Arg Expr) : List Segment :=
  match a.kind with
  | .positional => [.part .argument a.value]
  | .keyword ident => [.name ident, sign .equal, .operand 1 a.value]
  | .star => [sign .star, .operand 1 a.value]
  | .doubleStar => [sign .doubleStar, .operand 1 a.value]

/-- What stands before the name of a parameter, or instead of it. -/
def ParamKind.segments : ParamKind → List Segment
  | regular => []
  | varPositional | keywordOnlyMark => [sign .star]
  | positionalOnlyMark => [sign .slash]
  | varKeyword => [sign .doubleStar]

/-- How a parameter is written. -/
def Param.segments (p : Param Expr) : List Segment :=
  p.kind.segments ++ p.name.toList.map .name ++ Segment.after .colon (.operand 1) p.annotation
    ++ Segment.after .equal (.operand 1) p.default

/-- How the clause of a comprehension is written. -/
def Generator.segments (g : Generator Expr) : List Segment :=
  (if g.isAsync then [word .kAsync] else []) ++
    word .kFor :: .part .targets g.target :: word .kIn :: .operand 2 g.iter
      :: g.conditions.flatMap fun c => [word .kIf, .operand 2 c]

/-- How an entry of a dictionary is written. -/
def DictItem.segments (item : DictItem Expr) : List Segment :=
  match item.key with
  | some key => [.part .element key, sign .colon, .operand 1 item.value]
  | none => [sign .doubleStar, .operand 6 item.value]

/-- How a constant is written. -/
def ConstantKind.segment : ConstantKind → Segment
  | number => .token .number
  | string => .strings (some string)
  | bytes => .strings (some bytes)
  | true => word .kTrue
  | false => word .kFalse
  | none => word .kNone
  | ellipsis => sign .ellipsis

namespace Expr

/-- How a comprehension is written inside its brackets. -/
def clauseSegments (element : Expr) (value : Option Expr) (generators : List (Generator Expr)) :
    List Segment :=
  .part .element element :: Segment.after .colon (.operand 1) value
    ++ generators.flatMap (·.segments)

/-- How an expression is written; the elements of a bare tuple stand in the given place.  A
comprehension that gives a generator is written without the parentheses around it. -/
def segments (inner : Position) : Expr → List Segment
  | name _ id _ => [.id id]
  | constant _ kind => [kind.segment]
  | fstring _ values => .strings none :: values.map .field
  | attr _ value ident _ => [.operand 15 value, sign .dot, .name ident]
  | subscript _ value index _ =>
    [.operand 15 value, sign .leftBracket, .part .subscript index, sign .rightBracket]
  | call _ func args =>
    .operand 15 func :: sign .leftParen :: Segment.list (args.map (·.segments))
      ++ [sign .rightParen]
  | starred _ value _ => [sign .star, .operand 6 value]
  | binary _ left op right =>
    [.operand op.leftTightness left, sign op.symbol, .operand op.rightTightness right]
  | unary _ op e => [.token op.word, .operand op.tightness e]
  | boolean _ op values =>
    Segment.joined (.keyword op.word) (.operand (op.tightness + 1)) values
  | compare _ left ops comparators => .operand 6 left :: Segment.compared ops comparators
  | lambda _ params body =>
    word .kLambda :: Segment.list (params.params.map (·.segments))
      ++ [sign .colon, .operand 1 body]
  | conditional _ test body orelse =>
    [.operand 2 body, word .kIf, .operand 2 test, word .kElse, .operand 1 orelse]
  | named _ target value => [.operand 15 target, sign .colonEqual, .operand 1 value]
  | tuple _ elements _ true =>
    sign .leftParen :: Segment.parts .element elements ++ [sign .rightParen]
  | tuple _ elements _ false => Segment.parts inner elements
  | list _ elements _ =>
    sign .leftBracket :: Segment.parts .element elements ++ [sign .rightBracket]
  | set _ elements => sign .leftBrace :: Segment.parts .element elements ++ [sign .rightBrace]
  | dict _ items => sign .leftBrace :: Segment.list (items.map (·.segments)) ++ [sign .rightBrace]
  | comprehension _ .generator element value generators => clauseSegments element value generators
  | comprehension _ .list element value generators =>
    sign .leftBracket :: clauseSegments element value generators ++ [sign .rightBracket]
  | comprehension _ .set element value generators
  | comprehension _ .dict element value generators =>
    sign .leftBrace :: clauseSegments element value generators ++ [sign .rightBrace]
  | await _ value => [word .kAwait, .operand 15 value]
  | yield _ value => word .kYield :: Segment.maybe .expressions value
  | yieldFrom _ value => [word .kYield, word .kFrom, .operand 1 value]
  | slice _ lower upper step =>
    Segment.maybe .element lower ++ sign .colon :: Segment.maybe (.operand 1) upper
      ++ .optional [.symbol .colon] :: Segment.maybe (.operand 1) step
  | missing _ => []

end Expr

/-- How an imported name is written. -/
def Alias.segments (a : Alias) : List Segment :=
  .path a.name :: a.asname.toList.flatMap fun ident => [word .kAs, .name ident]

/-- How an entry of a `with` is written. -/
def WithItem.segments (item : WithItem) : List Segment :=
  .operand 1 item.context :: Segment.afterWord .kAs .target item.target

/-- How an `except` clause is written. -/
def Handler.segments (h : Handler Stmt) : List Segment :=
  word .kExcept :: .optional [.symbol .star] :: Segment.maybe (.operand 1) h.type
    ++ h.name.toList.flatMap (fun ident => [word .kAs, .name ident]) ++ Segment.block h.body

namespace Stmt

/-- How decorators are written, each on its line. -/
def decoratorSegments (decorators : List Expr) : List Segment :=
  decorators.flatMap fun e => [sign .atSign, .part .named e, .token .newline]

/-- The word before an asynchronous statement. -/
def asyncSegments (isAsync : Bool) : List Segment := if isAsync then [word .kAsync] else []

/-- How the bases of a class are written; parentheses around none may be there. -/
def baseSegments : List (Arg Expr) → List Segment
  | [] => [.optional [.symbol .leftParen, .symbol .rightParen]]
  | bases => sign .leftParen :: Segment.list (bases.map (·.segments)) ++ [sign .rightParen]

/-- How a statement is written. -/
def segments : Stmt → List Segment
  | functionDef d =>
    decoratorSegments d.decorators ++ asyncSegments d.isAsync
      ++ word .kDef :: .name d.name :: sign .leftParen
        :: Segment.list (d.params.params.map (·.segments)) ++ sign .rightParen
        :: Segment.after .arrow (.operand 1) d.returns ++ Segment.block d.body
  | classDef d =>
    decoratorSegments d.decorators
      ++ word .kClass :: .name d.name :: baseSegments d.bases ++ Segment.block d.body
  | ret _ value => word .kReturn :: Segment.maybe .expressions value
  | delete _ targets => word .kDel :: Segment.parts .target targets
  | assign _ targets value =>
    targets.flatMap (fun t => [.part .value t, sign .equal]) ++ [.part .value value]
  | augAssign _ target op value => [.part .value target, sign op.assigning, .part .value value]
  | annAssign _ target annotation value =>
    .part .value target :: sign .colon :: .operand 1 annotation :: Segment.after .equal .value value
  | forLoop _ isAsync target iter body orelse =>
    asyncSegments isAsync
      ++ word .kFor :: .part .targets target :: word .kIn :: .part .expressions iter
        :: Segment.block body ++ Segment.blockAfter .kElse orelse
  | whileLoop _ test body orelse =>
    word .kWhile :: .part .named test :: Segment.block body ++ Segment.blockAfter .kElse orelse
  | ifElse _ isElif test body orelse =>
    word (if isElif then .kElif else .kIf) :: .part .named test :: Segment.block body
      ++ Segment.blockAfter .kElse orelse
  | withBlock _ isAsync items body =>
    asyncSegments isAsync ++ word .kWith :: Segment.list (items.map (·.segments))
      ++ Segment.block body
  | tryBlock _ body handlers orelse finalbody =>
    word .kTry :: Segment.block body ++ handlers.flatMap (·.segments)
      ++ Segment.blockAfter .kElse orelse ++ Segment.blockAfter .kFinally finalbody
  | raise _ exc cause =>
    word .kRaise :: Segment.maybe (.operand 1) exc ++ Segment.afterWord .kFrom (.operand 1) cause
  | assert _ test message =>
    word .kAssert :: .operand 1 test :: Segment.after .comma (.operand 1) message
  | importModules _ names => word .kImport :: Segment.list (names.map (·.segments))
  | importFrom _ module level names isStar =>
    -- no names stand behind a star
    word .kFrom :: .dots level :: module.toList.map .path ++ word .kImport
      :: if isStar then sign .star :: Segment.list (names.map (·.segments))
        else .optional [.symbol .leftParen] :: Segment.list (names.map (·.segments))
          ++ [.optional [.symbol .rightParen]]
  | global _ names => word .kGlobal :: Segment.list (names.map fun ident => [.name ident])
  | nonlocal _ names => word .kNonlocal :: Segment.list (names.map fun ident => [.name ident])
  | expr _ value => [.part .value value]
  | pass _ => [word .kPass]
  | breakLoop _ => [word .kBreak]
  | continueLoop _ => [word .kContinue]
  | error _ => []

end Stmt

end MethodLift.Syntax

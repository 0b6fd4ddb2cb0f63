import MethodLift.Text.Span

/-!
# Syntax trees

Statements and expressions as the parser builds them.  Every node carries a `Mark`: the span of the
text it was read from, and a serial number.  Comments and formatting are not in the tree; whoever
changes a program edits its text through the spans.

Serial numbers count the nodes in the order in which the parser completes them, expressions and
statements apart.  They tell nodes of one tree apart and give them an order in which what is inside
comes before what is around it.

The pieces that hold expressions or statements without being either (arguments, parameters, the
clauses of a comprehension, the handlers of a `try`) are structures over the type that they hold.
-/

namespace MethodLift.Syntax

/-- Which node of its tree a node is, and where it stands in the text. -/
structure Mark where
  serial : Nat
  span : Span
deriving DecidableEq, Repr, Inhabited

/-- A name that is written in the text without being an expression. -/
structure Ident where
  name : String
  span : Span
deriving DecidableEq, Repr, Inhabited

/-- What an expression is there for: to be read, to be assigned to, or to be deleted. -/
inductive Context
  | load
  | store
  | del
deriving DecidableEq, Repr, Inhabited

inductive ConstantKind
  | number
  | string
  | bytes
  | true
  | false
  | none
  | ellipsis
deriving DecidableEq, Repr, Inhabited

inductive BinaryOp
  | add | sub | mult | matMult | div | floorDiv | mod | pow | leftShift | rightShift | bitOr
  | bitXor | bitAnd
deriving DecidableEq, Repr, Inhabited

inductive UnaryOp
  | not | invert | plus | minus
deriving DecidableEq, Repr, Inhabited

inductive BoolOp
  | and | or
deriving DecidableEq, Repr, Inhabited

inductive CompareOp
  | eq | notEq | lt | le | gt | ge | is | isNot | in | notIn
deriving DecidableEq, Repr, Inhabited

inductive ComprehensionKind
  | list | set | dict | generator
deriving DecidableEq, Repr, Inhabited

/-! ## Parts of expressions -/

inductive ArgKind
  | positional
  | keyword (name : Ident)
  | star
  | doubleStar
deriving DecidableEq, Repr, Inhabited

/-- An argument of a call or a base of a class. -/
structure Arg (ε : Type) where
  kind : ArgKind
  value : ε
  span : Span
deriving Repr, Inhabited

inductive ParamKind
  | regular
  /-- `*args` -/
  | varPositional
  /-- A `*` alone: only keywords from here on. -/
  | keywordOnlyMark
  /-- A `/`: only positions up to here. -/
  | positionalOnlyMark
  /-- `**kwargs` -/
  | varKeyword
deriving DecidableEq, Repr, Inhabited

/-- An entry of a parameter list; the two marks have no name. -/
structure Param (ε : Type) where
  kind : ParamKind
  name : Option Ident
  annotation : Option ε
  default : Option ε
  span : Span
deriving Repr, Inhabited

/-- A parameter list.  The span of that of a `def` includes the parentheses; that of a `lambda` is
what stands between the keyword and the colon. -/
structure Parameters (ε : Type) where
  params : List (Param ε)
  span : Span
deriving Repr, Inhabited

/-- A `for … in …` of a comprehension, with the conditions that follow it. -/
structure Generator (ε : Type) where
  target : ε
  iter : ε
  conditions : List ε
  isAsync : Bool
  span : Span
deriving Repr, Inhabited

/-- An entry of a dictionary; without a key, the unpacking of another mapping. -/
structure DictItem (ε : Type) where
  key : Option ε
  value : ε
deriving Repr, Inhabited

/-! ## Expressions -/

/-- An expression. -/
inductive Expr
  | name (mark : Mark) (id : String) (ctx : Context)
  | constant (mark : Mark) (kind : ConstantKind)
  /-- A string with replacement fields; `values` are their expressions. -/
  | fstring (mark : Mark) (values : List Expr)
  | attr (mark : Mark) (value : Expr) (name : Ident) (ctx : Context)
  | subscript (mark : Mark) (value index : Expr) (ctx : Context)
  | call (mark : Mark) (func : Expr) (args : List (Arg Expr))
  | starred (mark : Mark) (value : Expr) (ctx : Context)
  | binary (mark : Mark) (left : Expr) (op : BinaryOp) (right : Expr)
  | unary (mark : Mark) (op : UnaryOp) (operand : Expr)
  | boolean (mark : Mark) (op : BoolOp) (values : List Expr)
  | compare (mark : Mark) (left : Expr) (ops : List CompareOp) (comparators : List Expr)
  | lambda (mark : Mark) (params : Parameters Expr) (body : Expr)
  | conditional (mark : Mark) (test body orelse : Expr)
  | named (mark : Mark) (target value : Expr)
  | tuple (mark : Mark) (elements : List Expr) (ctx : Context) (parenthesized : Bool)
  | list (mark : Mark) (elements : List Expr) (ctx : Context)
  | set (mark : Mark) (elements : List Expr)
  | dict (mark : Mark) (items : List (DictItem Expr))
  /-- For a dictionary, `element` is the key and `value` the value. -/
  | comprehension (mark : Mark) (kind : ComprehensionKind) (element : Expr) (value : Option Expr)
      (generators : List (Generator Expr))
  | await (mark : Mark) (value : Expr)
  | yield (mark : Mark) (value : Option Expr)
  | yieldFrom (mark : Mark) (value : Expr)
  | slice (mark : Mark) (lower upper step : Option Expr)
  /-- Stands where an expression should be and is not. -/
  | missing (mark : Mark)
deriving Inhabited

namespace Expr

/-- The mark of an expression. -/
def mark : Expr → Mark
  | name m .. | constant m .. | fstring m .. | attr m .. | subscript m .. | call m ..
  | starred m .. | binary m .. | unary m .. | boolean m .. | compare m .. | lambda m ..
  | conditional m .. | named m .. | tuple m .. | list m .. | set m .. | dict m ..
  | comprehension m .. | await m .. | yield m .. | yieldFrom m .. | slice m .. | missing m => m

/-- Where the expression stands in the text; enclosing parentheses belong to it. -/
def span (e : Expr) : Span := e.mark.span

/-- The place of the expression in the order of completion. -/
def serial (e : Expr) : Nat := e.mark.serial

/-- The same expression with another mark. -/
def withMark (m : Mark) : Expr → Expr
  | name _ id ctx => name m id ctx
  | constant _ kind => constant m kind
  | fstring _ values => fstring m values
  | attr _ value ident ctx => attr m value ident ctx
  | subscript _ value index ctx => subscript m value index ctx
  | call _ func args => call m func args
  | starred _ value ctx => starred m value ctx
  | binary _ left op right => binary m left op right
  | unary _ op operand => unary m op operand
  | boolean _ op values => boolean m op values
  | compare _ left ops comparators => compare m left ops comparators
  | lambda _ params body => lambda m params body
  | conditional _ test body orelse => conditional m test body orelse
  | named _ target value => named m target value
  | tuple _ elements ctx parenthesized => tuple m elements ctx parenthesized
  | list _ elements ctx => list m elements ctx
  | set _ elements => set m elements
  | dict _ items => dict m items
  | comprehension _ kind element value generators => comprehension m kind element value generators
  | await _ value => await m value
  | yield _ value => yield m value
  | yieldFrom _ value => yieldFrom m value
  | slice _ lower upper step => slice m lower upper step
  | missing _ => missing m

/-- The same expression at another place of the text. -/
def withSpan (s : Span) (e : Expr) : Expr := e.withMark { e.mark with span := s }

/-- What the expression is there for; those that can only be read are read. -/
def ctx : Expr → Context
  | name _ _ c | attr _ _ _ c | subscript _ _ _ c | starred _ _ c | tuple _ _ c _
  | list _ _ c => c
  | _ => .load

/-- The name that the expression is, if it is one. -/
def asName : Expr → Option String
  | name _ id _ => some id
  | _ => none

end Expr

/-! ## Parts of statements -/

/-- A function definition over the type of statements.  Its mark includes the decorators. -/
structure FunctionDef (σ : Type) where
  mark : Mark
  name : Ident
  decorators : List Expr
  params : Parameters Expr
  returns : Option Expr
  body : List σ
  isAsync : Bool
deriving Inhabited

/-- A class definition over the type of statements.  Its mark includes the decorators. -/
structure ClassDef (σ : Type) where
  mark : Mark
  name : Ident
  decorators : List Expr
  bases : List (Arg Expr)
  body : List σ
deriving Inhabited

structure WithItem where
  context : Expr
  target : Option Expr
deriving Inhabited

/-- An `except` clause. -/
structure Handler (σ : Type) where
  type : Option Expr
  name : Option Ident
  body : List σ
  span : Span
deriving Inhabited

/-- An imported name, dotted as it is written, and the name it gets. -/
structure Alias where
  name : String
  asname : Option Ident
  span : Span
deriving DecidableEq, Repr, Inhabited

/-- The part of a dotted name before its first dot. -/
def firstComponent (dotted : String) : String :=
  String.ofList (dotted.toList.takeWhile (· != '.'))

/-- The name that an import binds: the one it asks for, or the first component of a dotted name. -/
def Alias.boundName (a : Alias) : String :=
  match a.asname with
  | some ident => ident.name
  | none => firstComponent a.name

/-! ## Statements -/

/-- A statement. -/
inductive Stmt
  | functionDef (def_ : FunctionDef Stmt)
  | classDef (def_ : ClassDef Stmt)
  | ret (mark : Mark) (value : Option Expr)
  | delete (mark : Mark) (targets : List Expr)
  | assign (mark : Mark) (targets : List Expr) (value : Expr)
  | augAssign (mark : Mark) (target : Expr) (op : BinaryOp) (value : Expr)
  | annAssign (mark : Mark) (target annotation : Expr) (value : Option Expr)
  | forLoop (mark : Mark) (isAsync : Bool) (target iter : Expr) (body orelse : List Stmt)
  | whileLoop (mark : Mark) (test : Expr) (body orelse : List Stmt)
  /-- An `elif` is an `if` of its own, the only statement of the `orelse` before it. -/
  | ifElse (mark : Mark) (isElif : Bool) (test : Expr) (body orelse : List Stmt)
  | withBlock (mark : Mark) (isAsync : Bool) (items : List WithItem) (body : List Stmt)
  | tryBlock (mark : Mark) (body : List Stmt) (handlers : List (Handler Stmt))
      (orelse finalbody : List Stmt)
  | raise (mark : Mark) (exc cause : Option Expr)
  | assert (mark : Mark) (test : Expr) (message : Option Expr)
  | importModules (mark : Mark) (names : List Alias)
  /-- `module` is the dotted path without the `level` dots before it. -/
  | importFrom (mark : Mark) (module : Option String) (level : Nat) (names : List Alias)
      (isStar : Bool)
  | global (mark : Mark) (names : List Ident)
  | nonlocal (mark : Mark) (names : List Ident)
  | expr (mark : Mark) (value : Expr)
  | pass (mark : Mark)
  | breakLoop (mark : Mark)
  | continueLoop (mark : Mark)
  /-- Stands where a statement should be and is not. -/
  | error (mark : Mark)
deriving Inhabited

namespace Stmt

/-- The mark of a statement. -/
def mark : Stmt → Mark
  | functionDef d => d.mark
  | classDef d => d.mark
  | ret m .. | delete m .. | assign m .. | augAssign m .. | annAssign m .. | forLoop m ..
  | whileLoop m .. | ifElse m .. | withBlock m .. | tryBlock m .. | raise m .. | assert m ..
  | importModules m .. | importFrom m .. | global m .. | nonlocal m .. | expr m .. | pass m
  | breakLoop m | continueLoop m | error m => m

/-- Where the statement stands in the text. -/
def span (s : Stmt) : Span := s.mark.span

/-- The place of the statement in the order of completion. -/
def serial (s : Stmt) : Nat := s.mark.serial

/-- The function that the statement defines, if it defines one. -/
def asFunction : Stmt → Option (FunctionDef Stmt)
  | functionDef d => some d
  | _ => none

/-- The class that the statement defines, if it defines one. -/
def asClass : Stmt → Option (ClassDef Stmt)
  | classDef d => some d
  | _ => none

end Stmt

end MethodLift.Syntax

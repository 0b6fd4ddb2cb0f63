import MethodLift.Syntax.Grammar.Statement

/-!
# Modules

A module is the tree of a whole text.  Beside the tree it keeps the expressions that were completed
and then not used, so that its nodes can be listed without a gap in the order of completion.

Below are the questions that are asked of a module rather than of a node: what contains a node, and
which statement of the module's body that is.
-/

namespace MethodLift.Syntax

/-- The tree of a text. -/
structure Module where
  body : List Stmt
  /-- Expressions that were read but are no part of the tree. -/
  unused : List Expr
  span : Span
deriving Inhabited

/-- What contains an expression. -/
inductive Parent
  | stmt (s : Stmt)
  | expr (e : Expr)
deriving Inhabited

namespace Module

/-! ## Listing the nodes -/

/-- The statements of the tree, each before those in it. -/
def reachableStmts (m : Module) : List Stmt := m.body.flatMap Stmt.descendants

/-- The expressions of a statement itself, each before those in it. -/
def exprsOfStmt (s : Stmt) : List Expr := s.exprs.flatMap Expr.descendants

/-- The expressions of the tree. -/
def reachableExprs (m : Module) : List Expr := m.reachableStmts.flatMap exprsOfStmt

/-- The statements in the order of completion. -/
def stmts (m : Module) : List Stmt := m.reachableStmts.mergeSort fun a b => a.serial ≤ b.serial

/-- All expressions in the order of completion, those included that the tree does not use. -/
def exprs (m : Module) : List Expr :=
  (m.reachableExprs ++ m.unused).mergeSort fun a b => a.serial ≤ b.serial

/-! ## What contains what -/

/-- The statements that directly contain others, with what they contain. -/
def stmtParents (m : Module) : List (Nat × Stmt) :=
  m.reachableStmts.flatMap fun s => s.children.map fun c => (c.serial, s)

/-- The nodes that directly contain expressions, by the serial numbers of what they contain. -/
def exprParents (m : Module) : List (Nat × Parent) :=
  m.reachableStmts.flatMap fun s =>
    s.exprs.map (fun e => (e.serial, .stmt s))
      ++ (exprsOfStmt s).flatMap fun p => p.children.map fun e => (e.serial, .expr p)

/-- The statement that directly contains the statement with a serial number; none for those of the
module's body. -/
def parentOfStmt? (m : Module) (serial : Nat) : Option Stmt := m.stmtParents.lookup serial

/-- The node that directly contains the expression with a serial number; none for one that the tree
does not use. -/
def parentOfExpr? (m : Module) (serial : Nat) : Option Parent := m.exprParents.lookup serial

/-- The statement with a serial number. -/
def stmt? (m : Module) (serial : Nat) : Option Stmt :=
  m.reachableStmts.find? (·.serial == serial)

/-- The innermost statement around the expression with a serial number. -/
def enclosingStmt? (m : Module) (serial : Nat) : Option Stmt :=
  m.reachableStmts.find? fun s => (exprsOfStmt s).any (·.serial == serial)

/-- The chain of nodes from an expression with a serial number up to a statement, the expression's
own parent first; all but the last one are expressions. -/
def exprAncestors (m : Module) (serial : Nat) : List Expr :=
  go (m.exprParents.length) serial
where
  /-- Goes up at most `n` steps. -/
  go : Nat → Nat → List Expr
    | 0, _ => []
    | n + 1, serial =>
      match m.parentOfExpr? serial with
      | some (.expr p) => p :: go n p.serial
      | _ => []

/-- The statements around the one with a serial number, the innermost first, without itself. -/
def stmtAncestors (m : Module) (serial : Nat) : List Stmt :=
  go (m.stmtParents.length) serial
where
  /-- Goes up at most `n` steps. -/
  go : Nat → Nat → List Stmt
    | 0, _ => []
    | n + 1, serial =>
      match m.parentOfStmt? serial with
      | some p => p :: go n p.serial
      | none => []

/-- The statement of the module's body that contains a statement, or is it. -/
def topLevel (m : Module) (s : Stmt) : Stmt := (m.stmtAncestors s.serial).getLastD s

/-- The first statement, if it is a string. -/
def docstring? (m : Module) : Option Stmt :=
  match m.body with
  | (.expr mark (.constant cm .string)) :: _ => some (.expr mark (.constant cm .string))
  | _ => none

end Module

/-- The tree of a text and what is wrong with the text. -/
structure Parsed where
  module : Module
  problems : List Problem
deriving Inhabited

/-- Reads a module.  The problems come in the order of their spans, those of the tokens first. -/
def parse (text : String) : Parsed :=
  let source := text.toList
  let size := Text.width source
  let lexed := lex text
  let rules := Rules.upTo (2 * size + 8)
  let blocks := Blocks.upTo rules (size + 8)
  let start : ParserState :=
    { source
      current := lexed.tokens.headD ⟨.endOfFile, "", .point 0⟩
      later := lexed.tokens.tail
      lastEnd := 0
      depth := 0
      exprCount := 0
      stmtCount := 0
      problems := []
      unused := [] }
  let (body, state) := (Parser.moduleBody rules blocks).run start
  { module := ⟨body, state.unused.reverse, ⟨0, size⟩⟩
    problems := (lexed.problems ++ state.problems.reverse).mergeSort fun a b =>
      a.span.notAfter b.span }

/-- Whether the text has no problem. -/
def Parsed.isValid (p : Parsed) : Bool := p.problems.isEmpty

end MethodLift.Syntax

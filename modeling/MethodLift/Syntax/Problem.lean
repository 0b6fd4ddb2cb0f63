import MethodLift.Syntax.Token
import MethodLift.Text.Quoted

/-!
# Syntax problems

What can be wrong with a text, as causes with a place.  Reading a text never fails: problems are
collected beside the tree.  The wording of each cause is in `Cause.message` alone.
-/

namespace MethodLift.Syntax

namespace Problem

/-- What is wrong. -/
inductive Cause
  /-- A line is indented less than the one before, but not as any line around it. -/
  | unindentMismatch
  | unterminatedString
  /-- A backslash is not the last character of its line. -/
  | strayBackslash
  | unexpectedCharacter (c : Char)
  | expectedSymbol (symbol : Symbol)
  | expectedKeyword (word : Keyword)
  | expectedName
  | expectedAsName
  | expectedModuleName
  | expectedImportedName
  | expectedParameter
  | expectedExpression
  | expectedStatement
  | expectedEndOfStatement
  | expectedBlock
  | expectedHandler
  | expectedDecoratorEnd
  | expectedDecorated
  | unexpectedIndent
  | unexpectedInField
  | blockTooDeep
  | expressionTooDeep
  | cannotAssign
  | cannotDelete
deriving DecidableEq, Repr, Inhabited

/-- The wording of a cause. -/
def Cause.message : Cause → String
  | unindentMismatch => "unindent does not match any outer indentation level"
  | unterminatedString => "unterminated string literal"
  | strayBackslash => "unexpected character after line continuation"
  | unexpectedCharacter c => "unexpected character " ++ Text.quoteChar c
  | expectedSymbol s => "expected `" ++ s.text ++ "`"
  | expectedKeyword k => "expected `" ++ k.text ++ "`"
  | expectedName => "expected name"
  | expectedAsName => "expected name after `as`"
  | expectedModuleName => "expected module name"
  | expectedImportedName => "expected imported name"
  | expectedParameter => "expected parameter"
  | expectedExpression => "expected expression"
  | expectedStatement => "expected statement"
  | expectedEndOfStatement => "expected end of statement"
  | expectedBlock => "expected an indented block"
  | expectedHandler => "expected `except` or `finally` block"
  | expectedDecoratorEnd => "expected newline after decorator"
  | expectedDecorated => "expected `def` or `class` after decorator"
  | unexpectedIndent => "unexpected indent"
  | unexpectedInField => "unexpected token in f-string expression"
  | blockTooDeep => "block is nested too deeply"
  | expressionTooDeep => "expression is nested too deeply"
  | cannotAssign => "cannot assign to expression"
  | cannotDelete => "cannot delete expression"

end Problem

/-- A fault in a text: what is wrong, and where. -/
structure Problem where
  cause : Problem.Cause
  span : Span
deriving DecidableEq, Repr, Inhabited

namespace Problem

/-- The wording of the fault, without its place. -/
def message (p : Problem) : String := p.cause.message

/-- The wording of the fault with its place. -/
def describe (p : Problem) : String := p.message ++ " at " ++ p.span.ends

end Problem

end MethodLift.Syntax

import MethodLift.Text.Bytes

/-!
# Tokens

The words, symbols and layout marks of the language.  A token carries the text it was read from,
so that nothing has to look it up again, and the span of that text; layout tokens and the end of
the text carry no text.
-/

namespace MethodLift.Syntax

/-- The reserved words. -/
inductive Keyword
  | kFalse | kNone | kTrue | kAnd | kAs | kAssert | kAsync | kAwait | kBreak | kClass | kContinue
  | kDef | kDel | kElif | kElse | kExcept | kFinally | kFor | kFrom | kGlobal | kIf | kImport | kIn
  | kIs | kLambda | kNonlocal | kNot | kOr | kPass | kRaise | kReturn | kTry | kWhile | kWith
  | kYield
deriving DecidableEq, Repr, Inhabited

namespace Keyword

/-- How the word is written. -/
def text : Keyword → String
  | kFalse => "False" | kNone => "None" | kTrue => "True" | kAnd => "and" | kAs => "as"
  | kAssert => "assert" | kAsync => "async" | kAwait => "await" | kBreak => "break"
  | kClass => "class" | kContinue => "continue" | kDef => "def" | kDel => "del" | kElif => "elif"
  | kElse => "else" | kExcept => "except" | kFinally => "finally" | kFor => "for"
  | kFrom => "from" | kGlobal => "global" | kIf => "if" | kImport => "import" | kIn => "in"
  | kIs => "is" | kLambda => "lambda" | kNonlocal => "nonlocal" | kNot => "not" | kOr => "or"
  | kPass => "pass" | kRaise => "raise" | kReturn => "return" | kTry => "try" | kWhile => "while"
  | kWith => "with" | kYield => "yield"

/-- Every reserved word. -/
def all : List Keyword :=
  [kFalse, kNone, kTrue, kAnd, kAs, kAssert, kAsync, kAwait, kBreak, kClass, kContinue, kDef, kDel,
    kElif, kElse, kExcept, kFinally, kFor, kFrom, kGlobal, kIf, kImport, kIn, kIs, kLambda,
    kNonlocal, kNot, kOr, kPass, kRaise, kReturn, kTry, kWhile, kWith, kYield]

theorem mem_all (k : Keyword) : k ∈ all := by cases k <;> decide

/-- The reserved word with the given spelling. -/
def ofText? (word : String) : Option Keyword := all.find? (·.text == word)

end Keyword

/-- Brackets, separators and operators. -/
inductive Symbol
  | doubleStarEqual | doubleSlashEqual | leftShiftEqual | rightShiftEqual | ellipsis
  | arrow | colonEqual | doubleStar | doubleSlash | leftShift | rightShift | lessEqual
  | greaterEqual | equalEqual | notEqual | plusEqual | minusEqual | starEqual | slashEqual
  | percentEqual | amperEqual | barEqual | circumflexEqual | atEqual
  | leftParen | rightParen | leftBracket | rightBracket | leftBrace | rightBrace | colon | comma
  | semicolon | dot | atSign | equal | plus | minus | star | slash | percent | amper | bar
  | circumflex | tilde | less | greater
deriving DecidableEq, Repr, Inhabited

namespace Symbol

/-- How the symbol is written. -/
def text : Symbol → String
  | doubleStarEqual => "**=" | doubleSlashEqual => "//=" | leftShiftEqual => "<<="
  | rightShiftEqual => ">>=" | ellipsis => "..." | arrow => "->" | colonEqual => ":="
  | doubleStar => "**" | doubleSlash => "//" | leftShift => "<<" | rightShift => ">>"
  | lessEqual => "<=" | greaterEqual => ">=" | equalEqual => "==" | notEqual => "!="
  | plusEqual => "+=" | minusEqual => "-=" | starEqual => "*=" | slashEqual => "/="
  | percentEqual => "%=" | amperEqual => "&=" | barEqual => "|=" | circumflexEqual => "^="
  | atEqual => "@=" | leftParen => "(" | rightParen => ")" | leftBracket => "["
  | rightBracket => "]" | leftBrace => "\x7b" | rightBrace => "\x7d" | colon => ":" | comma => ","
  | semicolon => ";" | dot => "." | atSign => "@" | equal => "=" | plus => "+" | minus => "-"
  | star => "*" | slash => "/" | percent => "%" | amper => "&" | bar => "|" | circumflex => "^"
  | tilde => "~" | less => "<" | greater => ">"

/-- Every symbol, the longer ones before the shorter ones, so that the first match is the
longest. -/
def all : List Symbol :=
  [doubleStarEqual, doubleSlashEqual, leftShiftEqual, rightShiftEqual, ellipsis,
    arrow, colonEqual, doubleStar, doubleSlash, leftShift, rightShift, lessEqual, greaterEqual,
    equalEqual, notEqual, plusEqual, minusEqual, starEqual, slashEqual, percentEqual, amperEqual,
    barEqual, circumflexEqual, atEqual,
    leftParen, rightParen, leftBracket, rightBracket, leftBrace, rightBrace, colon, comma,
    semicolon, dot, atSign, equal, plus, minus, star, slash, percent, amper, bar, circumflex, tilde,
    less, greater]

theorem mem_all (s : Symbol) : s ∈ all := by cases s <;> decide

theorem text_ne_empty (s : Symbol) : s.text.toList ≠ [] := by cases s <;> decide

/-- Whether the symbol opens a bracket. -/
def opens : Symbol → Bool
  | leftParen | leftBracket | leftBrace => true
  | _ => false

/-- Whether the symbol closes a bracket. -/
def closes : Symbol → Bool
  | rightParen | rightBracket | rightBrace => true
  | _ => false

end Symbol

/-- What a token is. -/
inductive TokenKind
  | name
  | keyword (word : Keyword)
  | number
  | string
  /-- A string literal with replacement fields. -/
  | fstring
  | symbol (symbol : Symbol)
  /-- A character that begins no token. -/
  | unknown
  /-- The end of a logical line. -/
  | newline
  /-- The first token of a line that is indented deeper than the line before. -/
  | indent
  /-- Before a line that is indented less, once for each level that ends. -/
  | dedent
  | endOfFile
deriving DecidableEq, Repr, Inhabited

namespace TokenKind

/-- Layout tokens stand for line ends and indentation and carry no text of their own. -/
def isLayout : TokenKind → Bool
  | newline | indent | dedent => true
  | _ => false

end TokenKind

/-- A token with the text it was read from. -/
structure Token where
  kind : TokenKind
  text : String
  span : Span
deriving DecidableEq, Repr, Inhabited

end MethodLift.Syntax

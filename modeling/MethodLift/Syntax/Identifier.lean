import MethodLift.Syntax.Token
import MethodLift.Text.WordChar

/-!
# Identifiers

Which words are reserved, and which words can be used as a name.
-/

namespace MethodLift.Syntax

/-- Whether a word is reserved. -/
def isKeyword (word : String) : Bool := (Keyword.ofText? word).isSome

/-- Whether a word can be used as a name: it begins like a name, goes on with word characters, and
is not reserved. -/
def isIdentifier (word : String) : Bool :=
  match word.toList with
  | [] => false
  | c :: cs => Text.isNameStart c && cs.all Text.isWordChar && !isKeyword word

end MethodLift.Syntax

import MethodLift.Edit.Apply
import MethodLift.Edit.Normal
import MethodLift.Method.Dedent
import MethodLift.Method.Parameter

/-!
# The text of the new function

The function is the method's own text with edits: the instance leaves the parameter list and the new
parameters join it, reads of attributes become names, and what calls inside the method were changed
to is taken over.  Then it moves to the left margin.
-/

namespace MethodLift

open MethodLift.Syntax

/-- The function that a method becomes. -/
structure NewFunction where
  name : String
  /-- The text at the left margin, without a line break at its end. -/
  text : String
  parameters : List String
deriving DecidableEq, Repr, Inhabited

namespace NewFunction

/-- What stands for the file in edits of the method's text alone. -/
def scratchFile : String := "<method>"

/-- The replacement of the text at a span. -/
def replace (span : Span) (text : String) : Edit := ⟨scratchFile, span, text⟩

/-- The parameters that stay: without the instance, and without a `/` directly behind it. -/
def keptParams : List (Param Expr) → List (Param Expr)
  | [] => []
  | _ :: rest =>
    match rest with
    | p :: others => if p.kind == .positionalOnlyMark then others else rest
    | [] => []

/-- Whether a kept parameter already separates those that are passed by name. -/
def hasStar (kept : List (Param Expr)) : Bool :=
  kept.any fun p => p.kind == .varPositional || p.kind == .keywordOnlyMark

/-- The parameter list of the function: parameters that stay, with the new ones among them. -/
structure ParameterList where
  before : List (Param Expr)
  /-- Whether a `*` stands before the new parameters. -/
  star : Bool
  names : List String
  behind : List (Param Expr)
deriving Inhabited

/-- Puts new parameters behind or among those that stay. -/
def ParameterList.ofKept (kept : List (Param Expr)) (names : List String) :
    ArgumentStyle → ParameterList
  | .positional => ⟨kept, false, names, []⟩
  | .keyword =>
    ⟨kept.takeWhile (·.kind != .varKeyword), !names.isEmpty && !hasStar kept, names,
      kept.dropWhile (·.kind != .varKeyword)⟩

/-- How the new parameters are written. -/
def ParameterList.joined (ps : ParameterList) : String :=
  (if ps.star then "*, " else "") ++ ", ".intercalate ps.names

/-- Writes the new parameters between those that stay, of which `first` is the first one. -/
def ParameterList.joinEdit (ps : ParameterList) (first : Param Expr) : Edit :=
  match ps.behind with
  | p :: _ => replace (.point p.span.start) (ps.joined ++ ", ")
  | [] => replace (.point (ps.before.getLastD first).span.stop) (", " ++ ps.joined)

/-- The inside of the parentheses of a parameter list. -/
def insideParens (ps : Parameters Expr) : Span :=
  ⟨ps.span.start + 1, max (ps.span.stop - 1) (ps.span.start + 1)⟩

/-- The edits of the parameter list. -/
def parameterEdits (ps : Parameters Expr) (names : List String) (style : ArgumentStyle) :
    List Edit :=
  match ps.params with
  | [] => []
  | self :: _ =>
    let kept := keptParams ps.params
    let list := ParameterList.ofKept kept names style
    match kept with
    | [] => [replace (insideParens ps) list.joined]
    | first :: _ =>
      replace ⟨self.span.start, first.span.start⟩ ""
        :: if names.isEmpty then [] else [list.joinEdit first]

/-- Whether a read has been taken over by a change around it. -/
def isAbsorbed (inner : List Edit) (reference : Span) : Bool :=
  inner.any fun e => !e.span.isEmpty && e.span.contains reference

/-- The replacements of the reads that no other change has taken over. -/
def readEdits (plan : ParameterPlan) (inner : List Edit) : List Edit :=
  plan.flatMap fun p =>
    (p.references.filter (!isAbsorbed inner ·)).map fun reference => replace reference p.parameter

/-- An edit counted from an offset of the file on. -/
def relative (base : Nat) (e : Edit) : Edit :=
  replace ⟨e.span.start - base, e.span.stop - base⟩ e.text

/-- The changes that lie in the lines of a method. -/
def innerEdits (base stop : Nat) (changes : List Edit) : List Edit :=
  changes.filter fun e => base ≤ e.span.start && e.span.stop ≤ stop

/-- The function that the method `s` becomes.  `changes` are the changes of calls in its file; those
outside the method do not matter. -/
def ofMethod (text : String) (s : Stmt) (plan : ParameterPlan) (style : ArgumentStyle)
    (changes : List Edit) : Except EditError NewFunction :=
  match s with
  | .functionDef d => do
    let source := text.toList
    let base := Text.lineStart source d.mark.span.start
    let stop := d.mark.span.stop
    let names := ParameterPlan.parameters plan
    let inner := innerEdits base stop changes
    let edits := parameterEdits d.params names style ++ readEdits plan inner ++ inner
    let normal ← Edit.normalize (edits.map (relative base))
    let edited ← Edit.apply (Text.sliceString text ⟨base, stop⟩) normal
    return ⟨d.name.name, Text.dedent edited (d.mark.span.start - base), names⟩
  | other => .error (.invalidRange scratchFile other.span)

end NewFunction

end MethodLift

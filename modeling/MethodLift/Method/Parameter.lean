import MethodLift.Method.FreshName
import MethodLift.Method.Safety
import MethodLift.Syntax.Identifier

/-!
# New parameters

A function that was a method takes one parameter for each attribute that it reads.  A parameter is
named like its attribute where that name is free, and else gets the smallest number behind it that
makes it free.
-/

namespace MethodLift

open MethodLift.Syntax

/-- A new parameter, the attribute `member` that it stands for, and the reads that it replaces. -/
structure NewParameter where
  member : String
  parameter : String
  references : List Span
deriving DecidableEq, Repr, Inhabited

/-- The new parameters in the order in which their attributes are first read. -/
abbrev ParameterPlan := List NewParameter

/-- How new parameters are passed in calls. -/
inductive ArgumentStyle
  /-- After the other arguments, by position. -/
  | positional
  /-- By name. -/
  | keyword
deriving DecidableEq, Repr, Inhabited

/-- Whether a parameter behind the instance makes it impossible to add parameters that are passed by
position. -/
def Syntax.Param.needsKeywords (p : Param Expr) : Bool :=
  p.default.isSome || p.kind == .varPositional || p.kind == .keywordOnlyMark
    || p.kind == .varKeyword

/-- How new parameters are passed to a function with this parameter list, its instance aside. -/
def argumentStyle (ps : Parameters Expr) : ArgumentStyle :=
  if (ps.params.drop 1).any (·.needsKeywords) then .keyword else .positional

namespace ParameterPlan

/-- The names of the new parameters. -/
def parameters (plan : ParameterPlan) : List String := plan.map (·.parameter)

/-- The new parameter of an attribute. -/
def get? (plan : ParameterPlan) (member : String) : Option NewParameter :=
  plan.find? (·.member == member)

/-- Whether a name cannot be given to a new parameter. -/
def isTaken (reserved : List String) (plan : ParameterPlan) (name : String) : Bool :=
  reserved.contains name || plan.parameters.contains name || isKeyword name

/-- The plan with one more read. -/
def addRead (reserved : List String) (plan : ParameterPlan) (read : AttributeRead) :
    ParameterPlan :=
  if (plan.get? read.member).isSome then
    plan.map fun p =>
      if p.member == read.member then { p with references := p.references ++ [read.span] }
      else p
  else
    let bound := reserved.length + plan.length + Keyword.all.length
    plan ++ [⟨read.member, freshName (isTaken reserved plan) bound read.member "_", [read.span]⟩]

/-- The new parameters for some reads, where the reserved names are not free. -/
def ofReads (reads : List AttributeRead) (reserved : List String) : ParameterPlan :=
  reads.foldl (addRead reserved) []

end ParameterPlan

end MethodLift

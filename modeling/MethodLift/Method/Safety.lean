import MethodLift.Scope.Analysis

/-!
# Which methods can leave their class

A method can become a function if all that it does with its instance is to read public attributes,
directly in its own scope, and if it neither writes nor reads names of scopes around it.  The checks
are made kind by kind, so that of several violations the most basic one is reported.
-/

namespace MethodLift

open MethodLift.Scope

/-- Why a method cannot become a function. -/
inductive SafetyError
  | nonlocalWrite (name : String) (span : Span)
  | instanceEscapesNestedScope (name : String) (span : Span)
  | outerScopeRead (name : String) (span : Span)
  | instanceReassigned (name : String) (span : Span)
  | attributeWrite (name : String) (span : Span)
  | privateAttribute (name : String) (span : Span)
  | methodCallOnInstance (name : String) (span : Span)
  | bareInstanceUsage (name : String) (span : Span)
deriving DecidableEq, Repr, Inhabited

namespace SafetyError

/-- The wording of an error. -/
def message : SafetyError → String
  | nonlocalWrite name _ =>
    "writes to enclosing-scope names are not representable as arguments (`" ++ name ++ "`)"
  | instanceEscapesNestedScope name _ =>
    "instance reads inside a nested scope cannot be hoisted to parameters safely (`" ++ name ++ "`)"
  | outerScopeRead name _ =>
    "reads of other enclosing-scope names are not representable (`" ++ name ++ "`)"
  | instanceReassigned name _ =>
    "reassigning the instance binding changes semantics when it becomes an ordinary parameter (`"
      ++ name ++ "`)"
  | attributeWrite name _ =>
    "attribute writes are not convertible to parameters (`" ++ name ++ "`)"
  | privateAttribute name _ =>
    "private attributes cannot be exposed as parameters (`" ++ name ++ "`)"
  | methodCallOnInstance name _ =>
    "method calls on the instance cannot be hoisted (`" ++ name ++ "`)"
  | bareInstanceUsage name _ =>
    "the instance is used directly and cannot be eliminated (`" ++ name ++ "`)"

/-- Where the violation is. -/
def span : SafetyError → Span
  | nonlocalWrite _ s | instanceEscapesNestedScope _ s | outerScopeRead _ s
  | instanceReassigned _ s | attributeWrite _ s | privateAttribute _ s
  | methodCallOnInstance _ s | bareInstanceUsage _ s => s

end SafetyError

/-- A read of an attribute of the instance, which a parameter can replace; the span is that of the
whole access. -/
structure AttributeRead where
  member : String
  span : Span
deriving DecidableEq, Repr, Inhabited

namespace Safety

/-- The first mention of a kind in all reports. -/
def first? (analysis : Analysis) (kind : UsageReport → List NameMention) : Option NameMention :=
  (analysis.scopes.flatMap fun (_, report) => kind report).foldl
    (fun best? r => match best? with
      | none => some r
      | some best => if r.span.start < best.span.start then some r else some best)
    none

/-- Refuses a mention. -/
def refuse (error : String → Span → SafetyError) : Option NameMention → Except SafetyError Unit
  | none => .ok ()
  | some r => .error (error r.name r.span)

/-- Whether a name is private by its spelling. -/
def isPrivate (name : String) : Bool := name.toList.head? == some '_'

/-- Accepts a read of the instance if it is a read of a public attribute. -/
def acceptRead (instanceName : String) (read : InstanceRead) : Except SafetyError AttributeRead :=
  match read.member, read.shape with
  | some member, .assignmentTarget => .error (.attributeWrite member.name read.access)
  | some member, shape =>
    if isPrivate member.name then .error (.privateAttribute member.name read.access)
    else match shape with
      | .methodCall => .error (.methodCallOnInstance member.name read.access)
      | .attributeAccess => .ok ⟨member.name, read.access⟩
      | _ => .error (.bareInstanceUsage instanceName read.span)
  | none, _ => .error (.bareInstanceUsage instanceName read.span)

/-- Accepts reads one by one. -/
def acceptReads (instanceName : String) :
    List InstanceRead → Except SafetyError (List AttributeRead)
  | [] => .ok []
  | read :: rest => do
    let accepted ← acceptRead instanceName read
    return accepted :: (← acceptReads instanceName rest)

/-- The attribute reads of a method, if it can become a function. -/
def validate (analysis : Analysis) : Except SafetyError (List AttributeRead) := do
  refuse .nonlocalWrite (first? analysis (·.nonlocalWrites))
  refuse .instanceEscapesNestedScope (first? analysis (·.nestedInstanceReads))
  refuse .outerScopeRead (first? analysis (·.outerReads))
  refuse .instanceReassigned (first? analysis (·.instanceWrites))
  acceptReads analysis.instanceName
    (analysis.scopes.flatMap fun (_, report) => report.instanceReads)

end Safety

end MethodLift

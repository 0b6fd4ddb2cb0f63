import MethodLift.Scope.Trace

/-!
# References that cross scopes

Which scope a reference means, and which references of a method get in the way of its leaving the
class: writes to names of other scopes, reads of names of scopes around, and everything that is done
with the instance.

A reference is resolved from the innermost scope outwards.  A name that is declared global is looked
up no further; a declared nonlocal is looked up around the scope; class bodies are visible only to
what is evaluated directly in them.
-/

namespace MethodLift.Scope

open MethodLift.Syntax

/-! ## Resolution -/

/-- Whether a name is bound in a scope. -/
def boundIn (events : List Event) (key : ScopeKey) (name : String) : Bool :=
  events.any fun
    | .bound k n => k == key && n == name
    | _ => false

/-- Whether a name is declared global in a scope. -/
def globalIn (events : List Event) (key : ScopeKey) (name : String) : Bool :=
  events.any fun
    | .declaredGlobal k n => k == key && n == name
    | _ => false

/-- Whether a name is declared nonlocal in a scope. -/
def nonlocalIn (events : List Event) (key : ScopeKey) (name : String) : Bool :=
  events.any fun
    | .declaredNonlocal k n => k == key && n == name
    | _ => false

/-- The scope around others that a name belongs to; none for a global name. -/
def resolveAround (events : List Event) (name : String) : List ScopeLink → Option ScopeKey
  | [] => none
  | link :: rest =>
    if link.kind == .class_ then resolveAround events name rest
    else if globalIn events link.key name then none
    else if nonlocalIn events link.key name then resolveAround events name rest
    else if boundIn events link.key name then some link.key
    else resolveAround events name rest

/-- The scope that a name means where the scopes of a chain are around; none for a global name. -/
def resolve (events : List Event) (name : String) : List ScopeLink → Option ScopeKey
  | [] => none
  | link :: rest =>
    if globalIn events link.key name then none
    else if !nonlocalIn events link.key name && boundIn events link.key name then some link.key
    else resolveAround events name rest

/-! ## Findings -/

/-- What is done with the instance where it is read. -/
inductive ReadShape
  /-- An attribute is read. -/
  | attributeAccess
  /-- An attribute is called. -/
  | methodCall
  /-- An attribute is assigned to or deleted. -/
  | assignmentTarget
  /-- The instance is used on its own. -/
  | bareReference
deriving DecidableEq, Repr, Inhabited

/-- A name and where it is mentioned. -/
structure NameMention where
  name : String
  span : Span
deriving DecidableEq, Repr, Inhabited

/-- A read of the instance.  The access is the whole attribute expression, if there is one. -/
structure InstanceRead where
  span : Span
  shape : ReadShape
  member : Option NameMention
  access : Span
deriving DecidableEq, Repr, Inhabited

/-- A read of the instance on its own. -/
def InstanceRead.bare (span : Span) : InstanceRead := ⟨span, .bareReference, none, span⟩

/-- The read that a mention of the instance is. -/
def InstanceRead.ofReference (r : Reference) : InstanceRead :=
  match r.use with
  | .object member ctx access called =>
    let shape := if ctx != .load then ReadShape.assignmentTarget
      else if called then .methodCall else .attributeAccess
    ⟨r.span, shape, some ⟨member.name, member.span⟩, access⟩
  | _ => .bare r.span

/-- What a reference is to the conversion of the method. -/
inductive Finding
  | nonlocalWrite
  | nestedInstanceRead
  | outerRead
  | instanceWrite
  | instanceRead (read : InstanceRead)
deriving DecidableEq, Repr, Inhabited

/-- The read of the instance that a finding is. -/
def Finding.read? : Finding → Option InstanceRead
  | .instanceRead read => some read
  | _ => none

/-- Whether a reference calls `super` without arguments, which reads the instance. -/
def isBareSuper (r : Reference) : Bool := r.name == "super" && r.use == .callee true

/-- What a reference is found to be, for the method with the given scope and instance. -/
def finding? (events : List Event) (method : ScopeKey) (instanceName : String) (r : Reference) :
    Option Finding :=
  match r.ctx, resolve events r.name r.frame.chain with
  | .load, some scope =>
    if scope == method && r.name == instanceName then
      if r.frame.key == method then some (.instanceRead (.ofReference r))
      else some .nestedInstanceRead
    else if scope != r.frame.report then some .outerRead
    else none
  | .load, none =>
    if isBareSuper r then
      if r.frame.key == method then some (.instanceRead (.bare r.span))
      else some .nestedInstanceRead
    else none
  | _, some scope =>
    if scope != r.frame.key then some .nonlocalWrite
    else if scope == method && r.name == instanceName then some .instanceWrite
    else none
  | _, none => none

/-- The findings of one scope, each list in the order of the text. -/
structure UsageReport where
  nonlocalWrites : List NameMention
  nestedInstanceReads : List NameMention
  outerReads : List NameMention
  instanceWrites : List NameMention
  instanceReads : List InstanceRead
deriving Repr, Inhabited

/-- What the walk through a method found. -/
structure Analysis where
  /-- The name of the first parameter; empty if it has none. -/
  instanceName : String
  /-- The method first, then the scopes in it, in the order in which they open. -/
  scopes : List (ScopeOwner × UsageReport)
  /-- Every name that is bound or mentioned in the method, in order and each once. -/
  usedNames : List String
deriving Repr, Inhabited

/-- The mentions of one kind among findings. -/
def mentions (found : List (Reference × Finding)) (kind : Finding) : List NameMention :=
  (found.filterMap fun (r, f) => if f == kind then some ⟨r.name, r.span⟩ else none).mergeSort
    fun a b => a.span.start ≤ b.span.start

/-- The reads of the instance among findings. -/
def instanceReads (found : List (Reference × Finding)) : List InstanceRead :=
  (found.filterMap fun (_, f) => f.read?).mergeSort fun a b => a.span.start ≤ b.span.start

/-- The report of the scope with a key. -/
def reportOf (found : List (Reference × Finding)) (key : ScopeKey) : UsageReport :=
  let mine := found.filter fun (r, _) => r.frame.report == key
  { nonlocalWrites := mentions mine .nonlocalWrite
    nestedInstanceReads := mentions mine .nestedInstanceRead
    outerReads := mentions mine .outerRead
    instanceWrites := mentions mine .instanceWrite
    instanceReads := instanceReads mine }

/-- The scopes that open, in order. -/
def openedScopes (events : List Event) : List (ScopeKey × ScopeOwner) :=
  events.filterMap fun
    | .opened key owner => some (key, owner)
    | _ => none

/-- The references, in order. -/
def references (events : List Event) : List Reference :=
  events.filterMap fun
    | .referenced r => some r
    | _ => none

/-- Names in order, each once. -/
def sortedNames (names : List String) : List String :=
  (names.mergeSort fun a b => a ≤ b).eraseDups

/-- Every name that is mentioned, or bound in a scope that opens. -/
def usedNames (events : List Event) : List String :=
  let opened := (openedScopes events).map (·.1)
  sortedNames (events.filterMap fun
    | .bound key name => if opened.contains key then some name else none
    | .referenced r => some r.name
    | _ => none)

/-! ## Analysing a method -/

/-- The scope of a statement, as it is seen from inside a method in it. -/
def enclosingLink? : Stmt → Option ScopeLink
  | .functionDef d => some ⟨.stmt d.mark.serial, .function, false⟩
  | .classDef d => some ⟨.stmt d.mark.serial, .class_, false⟩
  | _ => none

/-- What the scope around a method binds and declares, as events. -/
def enclosingEvents (s : Stmt) : List Event :=
  match namesOfScope? s with
  | none => []
  | some names =>
    let key : ScopeKey := .stmt s.serial
    names.bound.map (.bound key) ++ names.globals.map (.declaredGlobal key)
      ++ names.nonlocals.map (.declaredNonlocal key)

/-- The events of a method, among those of the scopes around it. -/
def methodEvents (m : Module) (d : FunctionDef Stmt) : List Event :=
  let around := m.stmtAncestors d.mark.serial
  around.flatMap enclosingEvents
    ++ traceFunction d .method (around.filterMap enclosingLink?) none
      fun inner => d.body.flatMap (traceStmt inner)

/-- The name of the first parameter of a function; empty if it has none. -/
def instanceName (d : FunctionDef Stmt) : String :=
  ((d.params.params.head?.bind (·.name)).map (·.name)).getD ""

/-- Analyses a statement as a method; of one that defines no function nothing is found. -/
def analyze (m : Module) (s : Stmt) : Analysis :=
  match s with
  | .functionDef d =>
    let events := methodEvents m d
    let self := instanceName d
    let found := (references events).filterMap fun r =>
      (finding? events (.stmt d.mark.serial) self r).map (r, ·)
    { instanceName := self
      scopes := (openedScopes events).map fun (key, owner) => (owner, reportOf found key)
      usedNames := usedNames events }
  | _ => ⟨"", [], []⟩

end MethodLift.Scope

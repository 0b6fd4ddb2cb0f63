import MethodLift.Call.Shadow
import MethodLift.Edit.Apply
import MethodLift.Edit.Normal
import MethodLift.LiftError
import MethodLift.Method.Parameter

/-!
# Calls of the new function

A call `receiver.method(…)` becomes `function(…, receiver.a, receiver.b)`, with an argument for each
new parameter.  A receiver that is a dotted name is written once for each argument, and so is any
other receiver if there is at most one argument to write it for.  Else it is kept in a temporary.

The calls of a file are taken innermost first.  A receiver may hold calls of its own and reads that
become parameters; their changes are folded into the text of the receiver, since that text moves.
-/

namespace MethodLift

open MethodLift.Syntax

/-- How a receiver is used again in the new arguments. -/
inductive ReceiverShape
  /-- A dotted name, written once for each argument. -/
  | dottedName
  /-- Any other receiver, when there is at most one new argument. -/
  | usedOnce
  /-- Any other receiver, kept in a temporary. -/
  | keptInTemporary
deriving DecidableEq, Repr, Inhabited

/-- What the calls of the new function have in common. -/
structure CallContext where
  className : String
  functionName : String
  plan : ParameterPlan
  style : ArgumentStyle
  /-- The name that temporaries get, with a number behind it where it is taken. -/
  temporaryName : String
deriving Repr, Inhabited

/-- A call and what becomes of it. -/
structure CallChange where
  file : String
  /-- Where the call stood. -/
  span : Span
  /-- `none` for calls without a receiver, which stay as they are. -/
  shape : Option ReceiverShape
  temporary : Option String
  /-- The texts of the new arguments. -/
  arguments : List String
deriving DecidableEq, Repr, Inhabited

/-- The assignment of a receiver to a temporary. -/
structure TemporaryEdit where
  /-- Where the receiver ended: the order of the assignments before one statement. -/
  receiverEnd : Nat
  edit : Edit
deriving DecidableEq, Repr, Inhabited

/-- A new argument of a call: the name that it is passed by, if it has one, and the text of its
value. -/
structure NewArgument where
  keyword : Option String
  value : String
deriving DecidableEq, Repr, Inhabited

/-- How a new argument is written. -/
def NewArgument.text (a : NewArgument) : String :=
  match a.keyword with
  | some name => name ++ "=" ++ a.value
  | none => a.value

/-- What the calls of one file become. -/
structure CallChanges where
  changes : List CallChange
  edits : List Edit
deriving DecidableEq, Repr, Inhabited

/-- A read that becomes a parameter. -/
structure ReplacedRead where
  span : Span
  parameter : String
deriving DecidableEq, Repr, Inhabited

/-- The reads that the parameters of a plan replace. -/
def ParameterPlan.replacedReads (plan : ParameterPlan) : List ReplacedRead :=
  plan.flatMap fun p => p.references.map fun span => ⟨span, p.parameter⟩

namespace CallChanges

/-- What is known while the calls of a file are taken one after the other. -/
structure Progress where
  changes : List CallChange
  temporaries : List TemporaryEdit
  /-- Edits that no receiver has taken over so far. -/
  pending : List Edit
  /-- Names that a temporary cannot have. -/
  taken : List String
deriving Inhabited

/-! ## The receiver -/

/-- Whether an expression is a name or attributes of one. -/
def isDottedName : Expr → Bool
  | .name .. => true
  | .attr _ value _ _ => isDottedName value
  | _ => false

/-- How a receiver is used again. -/
def shapeOf (plan : ParameterPlan) (receiver : Expr) : ReceiverShape :=
  if isDottedName receiver then .dottedName
  else if plan.length ≤ 1 then .usedOnce
  else .keptInTemporary

/-- A receiver that is no instance of the class, or is one seen as an instance of another class. -/
def receiverObstacle? (className : String) : Expr → Option CallObstacle
  | .name _ id _ => if id == className then some .throughClass else none
  | .attr _ _ name _ => if name.name == className then some .throughClass else none
  | .call _ func _ => if func.asName == some "super" then some .throughSuper else none
  | _ => none

/-- An edit of a file as an edit of a part of it that starts at an offset. -/
def within (start : Nat) (e : Edit) : Edit :=
  { e with span := ⟨e.span.start - start, e.span.stop - start⟩ }

/-- Adds the replacement of a read to the edits of a receiver, unless it lies elsewhere or an edit
has taken it over. -/
def foldRead (file : String) (receiver : Span) (edits : List Edit) (read : ReplacedRead) :
    List Edit :=
  let moved := within receiver.start ⟨file, read.span, read.parameter⟩
  if receiver.contains read.span
      && !edits.any fun e => !e.span.isEmpty && e.span.contains moved.span then
    edits ++ [moved]
  else edits

/-- The text of a receiver after the changes in it. -/
def receiverText (file text : String) (receiver : Span) (absorbed : List Edit)
    (reads : List ReplacedRead) : Except EditError String := do
  let inner := reads.foldl (foldRead file receiver) (absorbed.map (within receiver.start))
  Edit.apply (Text.sliceString text receiver) (← Edit.normalize inner)

/-! ## The arguments -/

/-- Whether a new argument has to be passed by name: because the parameter does, or because it would
follow an argument that is. -/
def passesByName (style : ArgumentStyle) (args : List (Arg Expr)) : Bool :=
  style == .keyword || args.any fun a => match a.kind with
    | .keyword _ | .doubleStar => true
    | .positional | .star => false

/-- The new arguments, one for each new parameter. -/
def newArguments (ctx : CallContext) (args : List (Arg Expr)) (receiver : String) :
    List NewArgument :=
  ctx.plan.map fun p =>
    { keyword := if passesByName ctx.style args then some p.parameter else none
      value := receiver ++ "." ++ p.member }

/-- Whether an expression is a generator expression without parentheses of its own, which no other
argument can stand beside. -/
def isBareGenerator (text : List Char) : Expr → Bool
  | .comprehension m .generator .. => (Text.dropBytes text m.span.start).head? != some '('
  | _ => false

/-- The parentheses that a sole argument needs beside others. -/
def parenthesize (file : String) (text : List Char) : List (Arg Expr) → List Edit
  | [a] =>
    if isBareGenerator text a.value then
      [.insert file a.value.span.start "(", .insert file a.value.span.stop ")"]
    else []
  | _ => []

/-- The edits that add arguments to a call. -/
def argumentEdits (text : List Char) (site : CallSite) (arguments : List String) : List Edit :=
  if arguments.isEmpty then []
  else
    let joined := ", ".intercalate arguments
    match site.args.getLast? with
    | some last =>
      parenthesize site.file text site.args ++ [.insert site.file last.span.stop (", " ++ joined)]
    | none => [.insert site.file (site.span.stop - 1) joined]

/-! ## One call -/

/-- The line that assigns a receiver to a temporary, before the statement at an offset. -/
def temporaryLine (file : String) (text : List Char) (offset : Nat) (name receiver : String) :
    Edit :=
  .insert file (Text.lineStart text offset)
    (String.ofList (Text.indentation text offset) ++ name ++ " = " ++ receiver
      ++ String.ofList (Text.lineBreak text))

/-- Refuses a call whose bare name would not be the function's. -/
def refuseShadowed (m : Module) (ctx : CallContext) (site : CallSite) : Except LiftError Unit :=
  match m.enclosingStmt? site.mark.serial with
  | some s =>
    if CallSite.isShadowed m site.mark.serial s ctx.functionName then
      .error (.nameConflict ctx.functionName site.file site.span.start)
    else .ok ()
  | none => .ok ()

/-- Refuses a call that something stands in the way of. -/
def refuseObstacle (site : CallSite) : Option CallObstacle → Except LiftError Unit
  | some obstacle => .error (.unsupportedCallSite site.file site.span.start obstacle)
  | none => .ok ()

/-- The statement before which the receiver of a call site is kept. -/
def anchorOf (m : Module) (text : List Char) (site : CallSite) : Except LiftError Stmt :=
  match CallSite.anchor m text (.call site.mark site.func site.args) with
  | .ok s => .ok s
  | .error obstacle => .error (.unsupportedCallSite site.file site.span.start obstacle)

/-- Takes the next call of a file. -/
def step (m : Module) (text : String) (ctx : CallContext) (reads : List ReplacedRead)
    (progress : Progress) (site : CallSite) : Except LiftError Progress :=
  match site.receiver with
  | none =>
    .ok { progress with
      changes := progress.changes ++ [⟨site.file, site.span, none, none, []⟩] }
  | some receiver => do
    refuseObstacle site (receiverObstacle? ctx.className receiver)
    refuseShadowed m ctx site
    let source := text.toList
    let (absorbed, kept) := progress.pending.partition fun e => receiver.span.contains e.span
    let written ← liftEdit (receiverText site.file text receiver.span absorbed reads)
    let shape := shapeOf ctx.plan receiver
    let callee : Edit := ⟨site.file, site.func.span, ctx.functionName⟩
    if shape == .keptInTemporary then
      let start := (← anchorOf m source site).span.start
      let name := freshName progress.taken.contains progress.taken.length ctx.temporaryName ""
      let arguments := (newArguments ctx site.args name).map (·.text)
      return {
        changes := progress.changes ++ [⟨site.file, site.span, some shape, some name, arguments⟩]
        temporaries := progress.temporaries
          ++ [⟨receiver.span.stop, temporaryLine site.file source start name written⟩]
        pending := kept ++ callee :: argumentEdits source site arguments
        taken := name :: progress.taken }
    else
      let arguments := (newArguments ctx site.args written).map (·.text)
      return { progress with
        changes := progress.changes ++ [⟨site.file, site.span, some shape, none, arguments⟩]
        pending := kept ++ callee :: argumentEdits source site arguments }

/-! ## All calls of a file -/

/-- The innermost call first: by where they end, and of those that end together the shorter one
first. -/
def innermostFirst (sites : List CallSite) : List CallSite :=
  sites.mergeSort fun a b =>
    a.span.stop < b.span.stop || (a.span.stop == b.span.stop && b.span.start ≤ a.span.start)

/-- The names that a temporary cannot have: all that occur in the text, the new parameters, and the
function's own. -/
def takenNames (text : String) (ctx : CallContext) : List String :=
  ctx.functionName :: ParameterPlan.parameters ctx.plan
    ++ ((lex text).tokens.filter (·.kind == .name)).map (·.text)

/-- Assignments of temporaries by the line that they precede, and before one line in the order in
which their receivers ended. -/
def temporariesInOrder (temporaries : List TemporaryEdit) : List TemporaryEdit :=
  temporaries.mergeSort fun a b =>
    a.edit.span.start < b.edit.span.start
      || (a.edit.span.start == b.edit.span.start && a.receiverEnd ≤ b.receiverEnd)

/-- What the calls of a file become.  `reads` are reads in that file that parameters replace; they
matter where a call stands in the method itself. -/
def ofSites (m : Module) (text : String) (sites : List CallSite) (ctx : CallContext)
    (reads : List ReplacedRead) : Except LiftError CallChanges := do
  let done ← (innermostFirst sites).foldlM (step m text ctx reads) ⟨[], [], [], takenNames text ctx⟩
  return {
    changes := done.changes.mergeSort fun a b => a.span.start ≤ b.span.start
    edits := (temporariesInOrder done.temporaries).map (·.edit) ++ done.pending }

end CallChanges

end MethodLift

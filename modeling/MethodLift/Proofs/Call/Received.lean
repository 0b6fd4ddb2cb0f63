import MethodLift.Proofs.Call.Hoisting

/-!
# What a receiver is written as

When a call is taken, the text of its receiver is computed from the edits that are pending there: the
calls in it were taken before and have left theirs (`Received`).  This text stands for the receiver
in the new arguments, or it is assigned to a temporary, and the temporary stands for it (`Value`).
-/

namespace MethodLift

open MethodLift.Syntax

namespace CallChanges

variable {m : Module} {text : String} {ctx : CallContext} {reads : List ReplacedRead}
  {progress after : Progress} {site : CallSite} {receiver : Expr} {before : List CallSite}

/-- What the receiver of a call is written as when the call is taken behind some others: its text
after the edits that these have left in it, and after the reads in it were replaced. -/
structure Received (m : Module) (text : String) (ctx : CallContext) (reads : List ReplacedRead)
    (before : List CallSite) (progress : Progress) (site : CallSite) (receiver : Expr)
    (written : String) : Prop where
  ran : before.foldlM (step m text ctx reads) (start text ctx) = .ok progress
  received : site.receiver = some receiver
  edited : ∃ normal,
    Edit.normalize (receiverEdits site.file receiver.span progress.pending reads) = .ok normal
      ∧ Edit.apply (Text.sliceString text receiver.span) normal = .ok written

/-- What stands for the receiver of a call in its new arguments, `lines` being edits that insert
lines with temporaries. -/
inductive Value (m : Module) (text : String) (ctx : CallContext) (reads : List ReplacedRead)
    (before : List CallSite) (site : CallSite) (lines : List Edit) : String → Prop
  /-- The receiver itself, if it is a dotted name, or if there is one new parameter at most. -/
  | itself {progress : Progress} {receiver : Expr} {written : String}
    (received : Received m text ctx reads before progress site receiver written)
    (shape : shapeOf ctx.plan receiver ≠ .keptInTemporary) :
    Value m text ctx reads before site lines written
  /-- The temporary that the receiver is assigned to, on a line in front of a statement. -/
  | temporary {progress : Progress} {receiver : Expr} {written name : String} {stmt : Stmt}
    (received : Received m text ctx reads before progress site receiver written)
    (shape : shapeOf ctx.plan receiver = .keptInTemporary)
    (anchored : anchorOf m text.toList site = .ok stmt)
    (line : temporaryLine site.file text.toList stmt.span.start name written ∈ lines) :
    Value m text ctx reads before site lines name

/-- What stands for the receiver of one of the calls of a file, once all of them are changed. -/
def HasValue (m : Module) (text : String) (ctx : CallContext) (reads : List ReplacedRead)
    (sites : List CallSite) (changed : CallChanges) (site : CallSite) (value : String) : Prop :=
  ∃ before behind, innermostFirst sites = before ++ site :: behind
    ∧ Value m text ctx reads before site changed.edits value

/-- Taking a call writes its receiver, and its new arguments are made with what stands for it. -/
theorem Taking.exists_value {written : String} {arguments : List String}
    (taking : Taking m text ctx reads progress site receiver after written arguments)
    (ran : before.foldlM (step m text ctx reads) (start text ctx) = .ok progress)
    (received : site.receiver = some receiver) : ∃ value,
      Value m text ctx reads before site (after.temporaries.map (·.edit)) value
        ∧ arguments = (newArguments ctx site.args value).map (·.text) := by
  have writes : Received m text ctx reads before progress site receiver written :=
    ⟨ran, received, taking.edited⟩
  rcases taking.kept with ⟨shape, -, -, is⟩ | ⟨stmt, name, shape, anchored, -, added, -, is⟩
  · exact ⟨written, .itself writes shape, is⟩
  · refine ⟨name, .temporary writes shape anchored ?_, is⟩
    rw [added, List.map_append]
    exact List.mem_append_right _ (List.mem_singleton_self _)

/-- Among more lines, the same stands for a receiver. -/
lemma Value.mono {lines lines' : List Edit} {value : String}
    (h : Value m text ctx reads before site lines value) (sub : lines ⊆ lines') :
    Value m text ctx reads before site lines' value := by
  cases h with
  | itself received shape => exact .itself received shape
  | temporary received shape anchored line => exact .temporary received shape anchored (sub line)

/-- Lines with temporaries stay when more calls are taken. -/
lemma temporaries_subset {later : List CallSite}
    (ran : later.foldlM (step m text ctx reads) progress = .ok after) :
    progress.temporaries ⊆ after.temporaries := by
  refine foldlM_invariant (P := fun p => progress.temporaries ⊆ p.temporaries)
    (List.Subset.refl _) (fun p site p' _ sub stepped => ?_) ran
  rcases step_cases stepped with passes | ⟨h, -, hoists⟩
  · exact passes.temporaries ▸ sub
  · rw [hoists.temporaries]
    exact List.subset_append_of_subset_left _ sub

end CallChanges

end MethodLift

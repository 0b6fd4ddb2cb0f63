import MethodLift.Proofs.Call.Exchange
import MethodLift.Proofs.Lift.Removal
import MethodLift.Proofs.Method.Replacement

/-!
# What a plan does not depend on

A place is replaced in a file if a call names the method there, or if the place is in a read of the
instance that becomes a parameter.  With other characters at such places, but the same trees, the
same plan is made, and it makes the same files (`make_exchange`, `commit_exchange`).  So nothing in
the plan, in the text of the function or in the files afterwards is copied from these places.

The one thing that does depend on them is which names temporaries avoid; the names are to be the same
ones, therefore.
-/

namespace MethodLift

open MethodLift.Syntax MethodLift.Scope

/-! ## Files with other characters -/

/-- Files of which each may have other characters at some places. -/
def ExchangedFiles (ctx : CallContext) (places : String → List Span) (s s' : Snapshot) : Prop :=
  List.Forall₂ (fun f f' => f.1 = f'.1 ∧ CallChanges.Exchanged ctx (places f.1) f.2 f'.2)
    s.files s'.files

/-- A workspace with other files, of which it keeps the old trees. -/
def Workspace.withFiles (w : Workspace) (files : Snapshot) : Workspace :=
  { w with snapshot := files }

/-- What it takes to read a file. -/
lemma Workspace.source_eq_ok_iff {w : Workspace} {file : String} {source : SourceFile} :
    w.source file = .ok source ↔ ∃ text p, w.snapshot.text? file = some text
      ∧ w.parsed? file = some p ∧ p.problems = [] ∧ source = ⟨file, text, p.module⟩ := by
  unfold Workspace.source
  constructor
  · intro h
    split at h
    next text p known parsed =>
      split at h
      next valid => exact ⟨text, p, known, parsed, valid, (Except.ok.inj h).symm⟩
      · cases h
    · cases h
  · rintro ⟨text, p, known, parsed, valid, rfl⟩
    rw [known, parsed]
    dsimp only
    rw [valid]

variable {ctx : CallContext} {places : String → List Span} {s s' : Snapshot}

lemma ExchangedFiles.text? (h : ExchangedFiles ctx places s s') (file : String) :
    s.text? file = none ∧ s'.text? file = none
    ∨ ∃ text other, s.text? file = some text ∧ s'.text? file = some other
      ∧ CallChanges.Exchanged ctx (places file) text other := by
  rw [Snapshot.text?, Snapshot.text?]
  unfold ExchangedFiles at h
  generalize s.files = fs at h ⊢
  generalize s'.files = fs' at h ⊢
  induction h with
  | nil => exact .inl ⟨rfl, rfl⟩
  | @cons f f' fs fs' first _ ih =>
    obtain ⟨path, text⟩ := f
    obtain ⟨path', other⟩ := f'
    obtain ⟨same, exchanged⟩ := first
    obtain rfl : path = path' := same
    rw [List.lookup_cons, List.lookup_cons]
    cases here : file == path with
    | true =>
      obtain rfl := eq_of_beq here
      exact .inr ⟨text, other, rfl, rfl, exchanged⟩
    | false => exact ih

/-- A file that is read has the same tree with its other text. -/
lemma ExchangedFiles.source {w : Workspace} {file : String} {source : SourceFile}
    (h : ExchangedFiles ctx places w.snapshot s') (opened : w.source file = .ok source) :
    ∃ other, (w.withFiles s').source file = .ok ⟨file, other, source.module⟩
      ∧ CallChanges.Exchanged ctx (places file) source.text other := by
  obtain ⟨text, p, known, parsed, valid, rfl⟩ := Workspace.source_eq_ok_iff.1 opened
  rcases h.text? file with ⟨none, -⟩ | ⟨text', other, some, some', exchanged⟩
  · rw [none] at known
    cases known
  · obtain rfl : text' = text := Option.some.inj (some.symm.trans known)
    exact ⟨other, Workspace.source_eq_ok_iff.2 ⟨other, p, some', parsed, valid, rfl⟩, exchanged⟩

/-! ## What is read off the layout -/

section Layout

variable {a b : List Char} (same : List.Forall₂ Text.Alike a b)
include same

namespace Lift

lemma isBlankLine_congr (start : ℕ) : isBlankLine a start = isBlankLine b start := by
  rw [isBlankLine, isBlankLine, Text.width_congr same, Text.lineEnd_congr same,
    Text.all_congr (Text.slice_congr same _) Text.isMark_of_isWhitespace]

lemma skipBlankBefore_congr (start lines : ℕ) :
    skipBlankBefore a start lines = skipBlankBefore b start lines := by
  induction lines generalizing start with
  | zero => rfl
  | succ lines ih =>
    simp only [skipBlankBefore, Text.lineStart_congr same, isBlankLine_congr same, ih]

lemma skipBlankAfter_congr (start lines : ℕ) :
    skipBlankAfter a start lines = skipBlankAfter b start lines := by
  induction lines generalizing start with
  | zero => rfl
  | succ lines ih => simp only [skipBlankAfter, Text.lineEnd_congr same, isBlankLine_congr same, ih]

lemma removal_congr (file : String) (t : LiftTarget) : removal file a t = removal file b t := by
  simp only [removal, Text.lineStart_congr same, Text.lineEnd_congr same,
    Text.indentation_congr same, Text.lineBreak_congr same, same.length_eq,
    skipBlankBefore_congr same, skipBlankAfter_congr same]

lemma insertion_congr (file : String) (after : ℕ) (f : NewFunction) :
    insertion file a after f = insertion file b after f := by
  simp only [insertion, Text.lineEnd_congr same, Text.lineBreak_congr same,
    Text.getLast?_congr (Text.takeBytes_congr same _) (by decide : Text.isMark '\n' = true)]

end Lift

namespace Import

lemma skipComments_congr (offset lines : ℕ) :
    skipComments a offset lines = skipComments b offset lines := by
  induction lines generalizing offset with
  | zero => rfl
  | succ lines ih =>
    simp only [skipComments,
      Text.head?_congr (Text.dropBytes_congr same _) (by decide : Text.isMark '#' = true),
      Text.lineEnd_congr same, ih]

lemma lineOffset_congr (m : Module) : lineOffset m a = lineOffset m b := by
  simp only [lineOffset, Text.lineEnd_congr same, same.length_eq, skipComments_congr same]

lemma newLine_congr (offset : ℕ) (path symbol : String) :
    newLine a offset path symbol = newLine b offset path symbol := by
  have last : (a.getLast? != some '\n') = (b.getLast? != some '\n') :=
    congrArg Bool.not (Text.getLast?_congr same (by decide))
  have empty : a.isEmpty = b.isEmpty := by
    rw [Bool.eq_iff_iff, List.isEmpty_iff_length_eq_zero, List.isEmpty_iff_length_eq_zero,
      same.length_eq]
  simp only [newLine, Text.lineBreak_congr same, Text.width_congr same, last, empty]

omit same in
lemma ensure_congr {text other : String} (same : List.Forall₂ Text.Alike text.toList other.toList)
    (m : Module) (file path symbol : String) :
    ensure m text file path symbol = ensure m other file path symbol := by
  simp only [ensure, lineOffset_congr same, newLine_congr same]

end Import

end Layout

/-- No refusal depends on what the method's decorators look like. -/
lemma LiftTarget.refuse_exchange {m : Module} {text other file : String} {d : FunctionDef Stmt}
    (ok : refuse m text file d = .ok ()) : refuse m other file d = .ok () := by
  unfold refuse at ok ⊢
  dsimp only at ok ⊢
  split at ok
  · cases ok
  next allowed =>
    rw [if_neg allowed]
    split at ok
    · cases ok
    · exact ok

namespace LiftPlan

/-! ## The calls -/

/-- Whether a place of a file is replaced: a call names the method there, or a read of the instance
that becomes a parameter is around it. -/
def Replaces (w : Workspace) (request : LiftRequest) (plan : LiftPlan) (file : String)
    (place : Span) : Prop :=
  ∃ source, w.source file = .ok source ∧ (place ∈ calledUses request.method source.module
    ∨ file = request.file ∧ ∃ r ∈ plan.parameters.replacedReads, r.span.contains place = true)

/-- What is replaced in a file that is read. -/
lemma Replaces.of_source {w : Workspace} {request : LiftRequest} {plan : LiftPlan} {file : String}
    {place : Span} {source : SourceFile} (h : Replaces w request plan file place)
    (opened : w.source file = .ok source) : place ∈ calledUses request.method source.module
    ∨ file = request.file ∧ ∃ r ∈ plan.parameters.replacedReads, r.span.contains place = true := by
  obtain ⟨source', opened', replaced⟩ := h
  obtain rfl := Except.ok.inj (opened.symm.trans opened')
  exact replaced

/-- Taking the calls of a file gives the same. -/
lemma callsOfFile_exchange {w : Workspace} {home file : String} {path : Option String}
    {progress after : Progress} {sites : List CallSite} {source : SourceFile}
    (exchanged : ExchangedFiles ctx places w.snapshot s') (opened : w.source file = .ok source)
    (calls : ∀ other changed, CallChanges.Exchanged ctx (places file) source.text other →
      CallChanges.ofSites source.module source.text sites ctx
        (if file == home then ctx.plan.replacedReads else []) = .ok changed →
      CallChanges.ofSites source.module other sites ctx
        (if file == home then ctx.plan.replacedReads else []) = .ok changed)
    (ok : callsOfFile w home path ctx progress file sites = .ok after) :
    callsOfFile (w.withFiles s') home path ctx progress file sites = .ok after := by
  obtain ⟨other, opened', known⟩ := exchanged.source opened
  have ensured (p : String) :
      progress.imports.ensure source.module other file p ctx.functionName
        = progress.imports.ensure source.module source.text file p ctx.functionName := by
    rw [Imports.ensure, Imports.ensure, Import.ensure_congr known.same.alike]
  obtain ⟨source', opened'', ok⟩ := bind_eq_ok.1 ok
  obtain rfl := Except.ok.inj (opened.symm.trans opened'')
  refine bind_eq_ok.2 ⟨_, opened', ?_⟩
  set reads := if file == home then ctx.plan.replacedReads else []
  -- the three ways to the imports meet in one continuation
  have rest (imports : Imports) (ok : (do
        let changed ← CallChanges.ofSites source.module source.text sites ctx reads
        return (⟨imports, progress.calls ++ changed.changes, progress.edits ++ changed.edits⟩ :
          Progress)) = Except.ok after) : (do
        let changed ← CallChanges.ofSites source.module other sites ctx reads
        return (⟨imports, progress.calls ++ changed.changes, progress.edits ++ changed.edits⟩ :
          Progress)) = Except.ok after := by
    obtain ⟨changed, ran, ok⟩ := bind_eq_ok.1 ok
    exact bind_eq_ok.2 ⟨changed, calls other changed known ran, ok⟩
  cases path with
  | none => exact rest _ ok
  | some p =>
    dsimp only at ok ⊢
    by_cases atHome : file == home
    · rw [if_pos atHome] at ok ⊢
      exact rest _ ok
    · rw [if_neg atHome] at ok ⊢
      obtain ⟨imports, is, ok⟩ := bind_eq_ok.1 ok
      exact bind_eq_ok.2 ⟨imports, (ensured p).trans is, rest _ ok⟩

variable {roots : List String} {request : LiftRequest} {plan : LiftPlan} {home : SourceFile}
  {target : LiftTarget} {accepted : List AttributeRead} {path : Option String} {done : Progress}

section Made

variable (making : Making (Workspace.ofSnapshot s roots) request plan home target accepted path done)
  (ordered : Snapshot.Ordered s.files)
include making ordered

/-- The reads of the instance that are replaced are accesses in the method. -/
lemma Making.accepted_reads :
    CallChanges.Accepted home.module plan.parameters.replacedReads
      ∧ ∀ r ∈ plan.parameters.replacedReads,
        target.method.mark.span.contains r.span = true := by
  obtain ⟨-, tree, valid⟩ := Workspace.source_eq_ok ordered making.opened
  have laid : home.module.Laid := tree ▸ parse_laid valid
  have method := isMethod_of_find making.found
  have passed := Safety.validate_ok making.accepted
  have same : (plan.parameters.replacedReads.map (·.span)).Perm (accepted.map (·.span)) := by
    rw [making.parameters]
    exact ParameterPlan.replacedReads_ofReads _ _
  refine ⟨CallChanges.accepted_of_passed laid method passed same, fun r hr => ?_⟩
  obtain ⟨n, hn, -, span⟩ := CallChanges.exists_node_of_read laid method passed same hr
  have mem := Module.stmt_mem_nodes.2 method.mem_reachableStmts
  exact span ▸ Span.contains_iff.2 ((laid.node mem).descendant hn).2

variable (replaced : ∀ file, ∀ place ∈ places file,
    Replaces (Workspace.ofSnapshot s roots) request plan file place)
include replaced

/-- The calls of a file become the same. -/
lemma Making.calls_exchange {file other : String} {source : SourceFile} {changed : CallChanges}
    (opened : (Workspace.ofSnapshot s roots).source file = .ok source)
    (exchanged : CallChanges.Exchanged (context request plan) (places file) source.text other)
    (ok : CallChanges.ofSites source.module source.text
        (CallSite.ofModule file request.method source.module) (context request plan)
        (if file == request.file then plan.parameters.replacedReads else []) = .ok changed) :
    CallChanges.ofSites source.module other
        (CallSite.ofModule file request.method source.module) (context request plan)
        (if file == request.file then plan.parameters.replacedReads else []) = .ok changed := by
  obtain ⟨-, tree, valid⟩ := Workspace.source_eq_ok ordered opened
  have laid : source.module.Laid := tree ▸ parse_laid valid
  refine CallChanges.ofSites_exchange laid
    (CallChanges.innermostFirst_inOrder file request.method laid) ?_ (fun place hp => ?_)
    exchanged ok
  · split
    next atHome =>
      obtain rfl := eq_of_beq atHome
      obtain rfl := Except.ok.inj (opened.symm.trans making.opened)
      exact (making.accepted_reads ordered).1
    · exact ⟨List.forall_mem_nil _, .nil⟩
  · rcases (replaced file place hp).of_source opened with isUse | ⟨rfl, isRead⟩
    · exact .inr (CallSite.exists_of_mem_calledUses file isUse)
    · rw [if_pos (beq_self_eq_true _)]
      exact .inl isRead

/-- The calls of all files become the same. -/
lemma Making.ran_exchange (exchanged : ExchangedFiles (context request plan) places s s') :
    (groupByFile ((Workspace.ofSnapshot s roots).callSites request.method)).foldlM
      (fun progress (file, sites) => callsOfFile ((Workspace.ofSnapshot s roots).withFiles s')
        request.file path (context request plan) progress file sites) ⟨[], [], []⟩ = .ok done := by
  refine foldlM_mono (fun g hg progress after ok => ?_) making.ran
  obtain ⟨file, sites⟩ := g
  dsimp only at ok ⊢
  obtain ⟨source, opened, -⟩ := bind_eq_ok.1 ok
  rw [groupByFile_callSites ordered] at hg
  have distinct := callsByFile_distinct ordered roots request.method
  have same : (file, sites) = (file, CallSite.ofModule file request.method source.module) :=
    List.inj_on_of_nodup_map (List.pairwise_map.2 distinct) (List.mem_filter.1 hg).1
      (mem_callsByFile_of_source opened _) rfl
  obtain rfl := congrArg Prod.snd same
  exact callsOfFile_exchange exchanged opened
    (fun other changed => making.calls_exchange ordered replaced opened) ok

omit replaced

/-- A read that is replaced is in an edit of the function's text. -/
lemma Making.exists_covers_read {r : ReplacedRead} (hr : r ∈ plan.parameters.replacedReads)
    (inner : List Edit) (inLines : ∀ e ∈ inner,
      Text.lineStart home.text.toList target.method.mark.span.start ≤ e.span.start) :
    ∃ e ∈ NewFunction.readEdits plan.parameters inner ++ inner,
      Text.lineStart home.text.toList target.method.mark.span.start ≤ e.span.start
        ∧ e.span.contains r.span = true := by
  obtain ⟨-, tree, valid⟩ := Workspace.source_eq_ok ordered making.opened
  have laid : home.module.Laid := tree ▸ parse_laid valid
  obtain ⟨reads, inMethod⟩ := making.accepted_reads ordered
  have some : Edit.coverings r.span (NewFunction.readEdits plan.parameters inner ++ inner)
      ≠ [] := by
    rw [NewFunction.coverings_readEdits inner reads.apart hr (reads.nonempty laid hr)]
    split
    · exact List.cons_ne_nil _ _
    next covered => exact covered
  obtain ⟨e, he⟩ := List.exists_mem_of_ne_nil _ some
  obtain ⟨he, -, covers⟩ := Edit.mem_coverings.1 he
  refine ⟨e, he, ?_, covers⟩
  rcases List.mem_append.1 he with he | he
  · rw [NewFunction.readEdits_eq] at he
    obtain ⟨x, hx, rfl⟩ := List.mem_map.1 he
    have start := (Span.contains_iff.1 (inMethod x (List.mem_filter.1 hx).1)).1
    exact (Nat.sub_le _ _).trans start
  · exact inLines e he

/-- Where a call of the home names the method, an edit of the function's text writes the name of the
function, or the call lies apart from the lines of the method. -/
lemma Making.use_inner (normal : Edit.IsNormal plan.edits) {use : Span}
    (isUse : use ∈ calledUses request.method home.module) :
    Span.Apart ⟨Text.lineStart home.text.toList target.method.mark.span.start,
        target.method.mark.span.stop⟩ use
      ∨ ∃ e ∈ changesIn request.file home.text.toList target.method done.edits,
        e.span.contains use = true := by
  obtain ⟨-, tree, valid⟩ := Workspace.source_eq_ok ordered making.opened
  have laid : home.module.Laid := tree ▸ parse_laid valid
  obtain ⟨taken, isTaken, rfl, edits, -⟩ := calls_of_file ordered making.ran making.opened
  obtain ⟨site, hs, he, -, covers⟩ := CallChanges.exists_callee_edit laid isTaken.changed isUse
  have listed := (List.mem_filter.1 (edits ▸ he)).1
  by_cases inner : isInner request.file target.method
      (CallChanges.calleeEdit (context request plan) site) = true
  · obtain ⟨front, back⟩ := Span.contains_iff.1 (Bool.and_eq_true _ _ ▸ inner).2
    have front := (Text.lineStart_le taken.source.text.toList _).trans front
    refine .inr ⟨_, List.mem_filter.2 ⟨List.mem_filter.2 ⟨listed, inner⟩, ?_⟩, covers⟩
    rw [Bool.and_eq_true, decide_eq_true_eq, decide_eq_true_eq]
    exact ⟨front, back⟩
  · -- what leaves the class is not changed in addition
    have apart := making.callee_apart ordered normal hs listed (Bool.eq_false_iff.2 inner)
    have lines := (making.method_removed ordered).1
    exact .inl ((apart.symm.of_contains lines).symm.of_contains covers)

include replaced

/-- The function is the same. -/
lemma Making.function_exchange (normal : Edit.IsNormal plan.edits) {other : String}
    (exchanged : Text.SameBut (places request.file) 0 home.text.toList other.toList) :
    NewFunction.ofMethod other target.stmt plan.parameters plan.style
      (done.edits.filter (isInner request.file target.method)) = .ok plan.function := by
  have inLines : ∀ e ∈ changesIn request.file home.text.toList target.method done.edits,
      Text.lineStart home.text.toList target.method.mark.span.start ≤ e.span.start := by
    intro e he
    have inLines := (List.mem_filter.1 he).2
    rw [Bool.and_eq_true, decide_eq_true_eq] at inLines
    exact inLines.1
  refine NewFunction.ofMethod_exchange exchanged making.function fun place hp => ?_
  rcases (replaced _ place hp).of_source making.opened with isUse | ⟨-, r, hr, around⟩
  · refine (making.use_inner ordered normal isUse).imp_right fun ⟨e, he, covers⟩ => ?_
    exact ⟨e, List.mem_append_right _ he, inLines e he, covers⟩
  · obtain ⟨e, he, front, covers⟩ := making.exists_covers_read ordered hr _ inLines
    exact .inr ⟨e, he, front, Span.contains_trans covers around⟩

/-- What is replaced in a file lies in an edit of the plan. -/
lemma Making.edits_cover {file : String} {place : Span} (hp : place ∈ places file) :
    ∃ e ∈ plan.edits.filter (·.file == file), e.span.contains place = true := by
  obtain ⟨source, opened, isUse | ⟨rfl, r, hr, around⟩⟩ := replaced file place hp
  · rcases making.use_edited ordered opened isUse with ⟨e, he, inFile, -, covers⟩ | ⟨rfl, inMethod⟩
    · exact ⟨e, List.mem_filter.2 ⟨he, beq_iff_eq.2 inFile⟩, covers⟩
    · obtain ⟨e, he, inHome, lines⟩ := making.lines_removed ordered
      have method : e.span.contains target.method.mark.span = true := Span.contains_trans lines
        (Span.contains_iff.2 ⟨Text.lineStart_le _ _, Nat.le_refl _⟩)
      exact ⟨e, List.mem_filter.2 ⟨he, beq_iff_eq.2 inHome⟩, Span.contains_trans method inMethod⟩
  · obtain ⟨e, he, inHome, lines⟩ := making.lines_removed ordered
    have method : e.span.contains target.method.mark.span = true := Span.contains_trans lines
      (Span.contains_iff.2 ⟨Text.lineStart_le _ _, Nat.le_refl _⟩)
    have inMethod := (making.accepted_reads ordered).2 r hr
    exact ⟨e, List.mem_filter.2 ⟨he, beq_iff_eq.2 inHome⟩,
      Span.contains_trans method (Span.contains_trans inMethod around)⟩

end Made

variable (ordered : Snapshot.Ordered s.files)
  (ok : make (Workspace.ofSnapshot s roots) request = .ok plan)
  (replaced : ∀ file, ∀ place ∈ places file,
    Replaces (Workspace.ofSnapshot s roots) request plan file place)
  (exchanged : ExchangedFiles (context request plan) places s s')
include ordered ok replaced exchanged

/-- The same plan is made of files that have other characters where something is replaced. -/
theorem make_exchange :
    make ((Workspace.ofSnapshot s roots).withFiles s') request = .ok plan := by
  obtain ⟨normal, -⟩ := make_fits ordered ok
  obtain ⟨home, target, accepted, path, done, making⟩ := make_ok ok
  obtain ⟨other, opened, known⟩ := exchanged.source (w := Workspace.ofSnapshot s roots)
    making.opened
  have alike := known.same.alike
  have edits := making.edits
  rw [Lift.removal_congr alike, Lift.insertion_congr alike] at edits
  have moved : Making ((Workspace.ofSnapshot s roots).withFiles s') request plan
      ⟨request.file, other, home.module⟩ target accepted path done :=
    { making with
      opened := opened
      refused := LiftTarget.refuse_exchange making.refused
      ran := making.ran_exchange ordered replaced exchanged
      function := making.function_exchange ordered replaced normal known.same
      edits := edits }
  exact moved.make_eq

/-- The same files come of them. -/
theorem commit_exchange {after : Snapshot} (committed : plan.commit s = .ok after) :
    ∃ after', plan.commit s' = .ok after' ∧ ∀ file, after'.text? file = after.text? file := by
  obtain ⟨normal, fits⟩ := make_fits ordered ok
  obtain ⟨home, target, accepted, path, done, making⟩ := make_ok ok
  have fits' : ∀ e ∈ plan.edits, s'.Fits e := by
    intro e he
    obtain ⟨some, boundaries⟩ := fits e he
    rcases exchanged.text? e.file with ⟨none, -⟩ | ⟨text, other, known, known', is⟩
    · rw [none] at some
      cases some
    · refine ⟨by rw [known']; rfl, fun text' known'' => ?_⟩
      obtain rfl := Option.some.inj (known'.symm.trans known'')
      obtain ⟨start, stop⟩ := boundaries text known
      rw [← Text.isBoundary_iff, Text.isBoundary_congr is.same.alike,
        Text.isBoundary_iff] at start stop
      exact ⟨start, stop⟩
  obtain ⟨after', committed'⟩ := Snapshot.apply_of_isNormal normal fits'
  refine ⟨after', committed', fun file => ?_⟩
  obtain ⟨changed, kept⟩ := Snapshot.text?_apply normal committed file
  obtain ⟨changed', kept'⟩ := Snapshot.text?_apply normal committed' file
  rcases exchanged.text? file with ⟨none, none'⟩ | ⟨text, other, known, known', is⟩
  · have away : ∀ e ∈ plan.edits, e.file ≠ file := by
      rintro e he rfl
      have some := (fits e he).known
      rw [none] at some
      cases some
    rw [kept away, kept' away, none, none']
  · obtain ⟨out, applied, becomes⟩ := changed text known
    obtain ⟨out', applied', becomes'⟩ := changed' other known'
    have same := Edit.apply_exchange is.same applied fun place hp =>
      making.edits_cover ordered replaced hp
    obtain rfl := Except.ok.inj (same.symm.trans applied')
    rw [becomes, becomes']

end LiftPlan

end MethodLift

import MethodLift.Proofs.Lift.Commit
import MethodLift.Proofs.Call.Absorbing

/-!
# How a plan is made

A plan that is made has been through all steps: the method was found and accepted, the calls of each
file were taken, and the edits have a normal form (`Making`).  The calls of one file depend on that
file alone, and all edits of calls in a file come from it (`calls_of_file`).
-/

namespace MethodLift

open MethodLift.Syntax

namespace LiftPlan

/-! ## Calls by file -/

/-- Calls of one file join the group of that file, if there are any. -/
lemma groupByFile_append {file : String} {sites others : List CallSite}
    (one : ∀ site ∈ sites, site.file = file) (other : ∀ g ∈ groupByFile others, g.1 ≠ file) :
    groupByFile (sites ++ others)
      = if sites = [] then groupByFile others else (file, sites) :: groupByFile others := by
  induction sites with
  | nil => rfl
  | cons site sites ih =>
    obtain ⟨here, rest⟩ := List.forall_mem_cons.1 one
    rw [List.cons_append, groupByFile, ih rest, if_neg (List.cons_ne_nil _ _)]
    split
    next first found groups shape =>
      split at shape
      next none =>
        -- the first group is one of another file
        have different : first ≠ file := other _ (shape ▸ List.mem_cons_self)
        rw [if_neg (by rw [beq_iff_eq, here]; exact different), shape, here, none]
      next some =>
        obtain ⟨⟨rfl, rfl⟩, rfl⟩ := (List.cons.inj shape).imp Prod.mk.inj id
        rw [if_pos (by rw [here]; exact beq_self_eq_true _)]
    next shape =>
      split at shape
      next none => rw [shape, here, none]
      · cases shape

/-- Grouping gives back the files that have calls. -/
theorem groupByFile_flatMap {entries : List (String × List CallSite)}
    (one : ∀ g ∈ entries, ∀ site ∈ g.2, site.file = g.1)
    (distinct : entries.Pairwise fun g h => g.1 ≠ h.1) :
    groupByFile (entries.flatMap (·.2)) = entries.filter fun g => !g.2.isEmpty := by
  induction entries with
  | nil => rfl
  | cons g entries ih =>
    obtain ⟨here, rest⟩ := List.forall_mem_cons.1 one
    obtain ⟨different, distinct⟩ := List.pairwise_cons.1 distinct
    have later := ih rest distinct
    have other : ∀ h ∈ groupByFile (entries.flatMap (·.2)), h.1 ≠ g.1 := by
      intro h hh
      rw [later] at hh
      exact (different h (List.mem_filter.1 hh).1).symm
    rw [List.flatMap_cons, groupByFile_append here other, later]
    cases sites : g.2 with
    | nil => rw [if_pos rfl, List.filter_cons_of_neg (by rw [sites]; decide)]
    | cons site others =>
      rw [if_neg (List.cons_ne_nil _ _), List.filter_cons_of_pos (by rw [sites]; rfl), ← sites]

variable {s : Snapshot} {roots : List String}

/-- The files of a workspace with their calls of a member. -/
def callsByFile (w : Workspace) (member : String) : List (String × List CallSite) :=
  w.parsed.map fun (file, p) => (file, CallSite.ofModule file member p.module)

lemma file_of_mem_callsByFile {w : Workspace} {member : String} :
    ∀ g ∈ callsByFile w member, ∀ site ∈ g.2, site.file = g.1 := by
  rintro g hg site hs
  obtain ⟨⟨file, p⟩, -, rfl⟩ := List.mem_map.1 hg
  obtain ⟨e, -, is⟩ := List.mem_filterMap.1 (List.mem_mergeSort.1 hs)
  exact (CallSite.ofExpr?_eq_some is).1

lemma callsByFile_distinct (ordered : Snapshot.Ordered s.files) (roots : List String)
    (member : String) :
    (callsByFile (Workspace.ofSnapshot s roots) member).Pairwise fun g h => g.1 ≠ h.1 := by
  refine List.pairwise_map.2 (List.pairwise_map.2 ?_)
  exact (ordered.filter _).imp fun less => less.ne

/-- The calls are taken by file, each file once. -/
theorem groupByFile_callSites (ordered : Snapshot.Ordered s.files) (member : String) :
    groupByFile ((Workspace.ofSnapshot s roots).callSites member)
      = (callsByFile (Workspace.ofSnapshot s roots) member).filter fun g => !g.2.isEmpty := by
  rw [← groupByFile_flatMap file_of_mem_callsByFile (callsByFile_distinct ordered _ _),
    callsByFile,
    List.flatMap_map]
  rfl

/-- The calls of a file that was read without problems. -/
lemma mem_callsByFile_of_source {w : Workspace} {file : String} {source : SourceFile}
    (opened : w.source file = .ok source) (member : String) :
    (file, CallSite.ofModule file member source.module) ∈ callsByFile w member := by
  rw [Workspace.source] at opened
  split at opened
  next text p _ parsed =>
    split at opened
    · obtain rfl := Except.ok.inj opened
      exact List.mem_map.2 ⟨_, Workspace.mem_of_parsed? parsed, rfl⟩
    · cases opened
  · cases opened

/-! ## The imports -/

lemma insertFile_perm (file : String) (edit : Option Edit) (imports : Imports) :
    (Imports.insertFile file edit imports).Perm ((file, edit) :: imports) := by
  induction imports with
  | nil => exact .refl _
  | cons first rest ih =>
    obtain ⟨f, e⟩ := first
    rw [Imports.insertFile]
    split
    · exact .refl _
    · exact (ih.cons _).trans (.swap _ _ _)

lemma lookup_eq_none {imports : Imports} {file : String} (new : ∀ i ∈ imports, i.1 ≠ file) :
    imports.lookup file = none := by
  rw [List.lookup_eq_none_iff]
  exact fun i hi => bne_iff_ne.2 (new i hi).symm

/-- A file that no import was ensured in so far gets what it needs. -/
lemma ensure_ok {imports after : Imports} {m : Module} {text file path symbol : String}
    (new : ∀ i ∈ imports, i.1 ≠ file)
    (ok : imports.ensure m text file path symbol = .ok after) :
    ∃ edit, Import.ensure m text file path symbol = .ok edit
      ∧ after.Perm ((file, edit) :: imports) := by
  rw [Imports.ensure, lookup_eq_none new] at ok
  obtain ⟨edit, ensured, ok⟩ := bind_eq_ok.1 ok
  obtain rfl := Except.ok.inj ok
  exact ⟨edit, ensured, insertFile_perm _ _ _⟩

/-! ## The calls of one file -/

/-- What taking the calls of one file gives: its edits, and the edit for its import. -/
structure FileCalls where
  source : SourceFile
  changed : CallChanges
  imported : Option Edit

/-- How that comes about.  Nothing is imported into the home, or where nothing is called. -/
structure FileCalls.Of (w : Workspace) (home : String) (path : Option String) (ctx : CallContext)
    (g : String × List CallSite) (taken : FileCalls) : Prop where
  opened : w.source g.1 = .ok taken.source
  changed : CallChanges.ofSites taken.source.module taken.source.text g.2 ctx
    (if g.1 == home then ParameterPlan.replacedReads ctx.plan else []) = .ok taken.changed
  imported : (taken.imported = none ∧ (g.2 = [] ∨ path = none ∨ g.1 = home))
    ∨ ∃ p, path = some p ∧ g.1 ≠ home ∧ Import.ensure taken.source.module taken.source.text g.1 p
      ctx.functionName = .ok taken.imported

variable {w : Workspace} {home file : String} {path : Option String} {ctx : CallContext}
  {progress after done : Progress}

lemma callsOfFile_ok {sites : List CallSite} (new : ∀ i ∈ progress.imports, i.1 ≠ file)
    (ok : callsOfFile w home path ctx progress file sites = .ok after) :
    ∃ taken, FileCalls.Of w home path ctx (file, sites) taken
      ∧ after.edits = progress.edits ++ taken.changed.edits
      ∧ after.imports.edits.Perm (taken.imported.toList ++ progress.imports.edits)
      ∧ ∀ i ∈ after.imports, i.1 = file ∨ i ∈ progress.imports := by
  obtain ⟨source, opened, ok⟩ := bind_eq_ok.1 ok
  set reads := if file == home then ParameterPlan.replacedReads ctx.plan else []
  -- the three ways to the imports meet in one continuation
  have rest (imports : Imports) (ok : (do
        let changed ← CallChanges.ofSites source.module source.text sites ctx reads
        return (⟨imports, progress.calls ++ changed.changes, progress.edits ++ changed.edits⟩ :
          Progress)) = Except.ok after) :
      ∃ changed, CallChanges.ofSites source.module source.text sites ctx reads = .ok changed
        ∧ after.imports = imports ∧ after.edits = progress.edits ++ changed.edits := by
    obtain ⟨changed, ran, ok⟩ := bind_eq_ok.1 ok
    obtain rfl := Except.ok.inj ok
    exact ⟨changed, ran, rfl, rfl⟩
  have unchanged (why : path = none ∨ file = home)
      (result : ∃ changed,
        CallChanges.ofSites source.module source.text sites ctx reads = .ok changed
        ∧ after.imports = progress.imports ∧ after.edits = progress.edits ++ changed.edits) :
      ∃ taken, FileCalls.Of w home path ctx (file, sites) taken
      ∧ after.edits = progress.edits ++ taken.changed.edits
      ∧ after.imports.edits.Perm (taken.imported.toList ++ progress.imports.edits)
      ∧ ∀ i ∈ after.imports, i.1 = file ∨ i ∈ progress.imports := by
    obtain ⟨changed, ran, imports, edits⟩ := result
    refine ⟨⟨source, changed, none⟩, ⟨opened, ran, .inl ⟨rfl, .inr why⟩⟩, edits, ?_, ?_⟩
    · rw [imports]
      exact .refl _
    · exact fun i hi => .inr (imports ▸ hi)
  cases path with
  | none => exact unchanged (.inl rfl) (rest _ ok)
  | some p =>
    dsimp only at ok
    by_cases atHome : file == home
    · rw [if_pos atHome] at ok
      exact unchanged (.inr (eq_of_beq atHome)) (rest _ ok)
    · rw [if_neg atHome] at ok
      obtain ⟨imports, ensured, ok⟩ := bind_eq_ok.1 ok
      obtain ⟨changed, ran, same, edits⟩ := rest _ ok
      obtain ⟨edit, ensured, perm⟩ := ensure_ok new ensured
      have away : file ≠ home := fun same => atHome (beq_iff_eq.2 same)
      refine ⟨⟨source, changed, edit⟩, ⟨opened, ran, .inr ⟨p, rfl, away, ensured⟩⟩, edits, ?_, ?_⟩
      · rw [same]
        refine (perm.filterMap _).trans ?_
        cases edit with
        | none => exact .refl _
        | some e => exact .refl _
      · intro i hi
        rw [same] at hi
        exact (List.mem_cons.1 (perm.mem_iff.1 hi)).imp_left (congrArg Prod.fst)

/-- The calls of all files, where each file is taken once. -/
theorem foldlM_callsOfFile {groups : List (String × List CallSite)}
    (distinct : groups.Pairwise fun g h => g.1 ≠ h.1)
    (new : ∀ i ∈ progress.imports, ∀ g ∈ groups, i.1 ≠ g.1)
    (ran : groups.foldlM (fun progress (file, sites) =>
      callsOfFile w home path ctx progress file sites) progress = .ok done) :
    ∃ takens, List.Forall₂ (FileCalls.Of w home path ctx) groups takens
      ∧ done.edits = progress.edits ++ takens.flatMap (·.changed.edits)
      ∧ done.imports.edits.Perm
        (takens.flatMap (·.imported.toList) ++ progress.imports.edits) := by
  induction groups generalizing progress with
  | nil =>
    obtain rfl := Except.ok.inj ran
    exact ⟨[], .nil, (List.append_nil _).symm, .refl _⟩
  | cons g groups ih =>
    rw [List.foldlM_cons] at ran
    obtain ⟨after, first, later⟩ := bind_eq_ok.1 ran
    obtain ⟨different, distinct⟩ := List.pairwise_cons.1 distinct
    obtain ⟨taken, is, edits, imports, keys⟩ :=
      callsOfFile_ok (fun i hi => new i hi g List.mem_cons_self) first
    have new' : ∀ i ∈ after.imports, ∀ h ∈ groups, i.1 ≠ h.1 := by
      intro i hi h hh
      rcases keys i hi with same | old
      · exact same ▸ different h hh
      · exact new i old h (List.mem_cons_of_mem _ hh)
    obtain ⟨takens, are, edits', imports'⟩ := ih distinct new' later
    refine ⟨taken :: takens, .cons is are, ?_, ?_⟩
    · rw [edits', edits, List.append_assoc, List.flatMap_cons]
    · rw [List.flatMap_cons, List.append_assoc]
      refine imports'.trans ((imports.append_left _).trans ?_)
      rw [← List.append_assoc, ← List.append_assoc]
      exact List.perm_append_comm.append_right _

/-- A part of what one file gives is what all files give for that file. -/
lemma exists_taken {groups : List (String × List CallSite)} {takens : List FileCalls}
    (are : List.Forall₂ (FileCalls.Of w home path ctx) groups takens)
    (distinct : groups.Pairwise fun g h => g.1 ≠ h.1) {parts : List (FileCalls → List Edit)}
    (files : ∀ g ∈ groups, ∀ t, FileCalls.Of w home path ctx g t →
      ∀ part ∈ parts, ∀ e ∈ part t, e.file = g.1) :
    (∀ g ∈ groups, ∃ t, FileCalls.Of w home path ctx g t
      ∧ ∀ part ∈ parts, (takens.flatMap part).filter (·.file == g.1) = part t)
    ∧ ∀ file, (∀ g ∈ groups, g.1 ≠ file) →
      ∀ part ∈ parts, (takens.flatMap part).filter (·.file == file) = [] := by
  induction are with
  | nil => exact ⟨nofun, fun _ _ _ _ => rfl⟩
  | @cons g t groups takens is are ih =>
    obtain ⟨different, distinct⟩ := List.pairwise_cons.1 distinct
    obtain ⟨here, rest⟩ := List.forall_mem_cons.1 files
    obtain ⟨known, absent⟩ := ih distinct rest
    have own : ∀ part ∈ parts, (part t).filter (·.file == g.1) = part t := fun part hp =>
      List.filter_eq_self.2 fun e he => beq_iff_eq.2 (here t is part hp e he)
    have others {file : String} (other : g.1 ≠ file) : ∀ part ∈ parts,
        (part t).filter (·.file == file) = [] := fun part hp =>
      List.filter_eq_nil_iff.2 fun e he => by
        rw [here t is part hp e he, beq_iff_eq]
        exact other
    refine ⟨List.forall_mem_cons.2 ⟨⟨t, is, fun part hp => ?_⟩, fun h hh => ?_⟩, ?_⟩
    · rw [List.flatMap_cons, List.filter_append, own part hp,
        absent g.1 (fun h hh => (different h hh).symm) part hp, List.append_nil]
    · obtain ⟨t', is', same⟩ := known h hh
      refine ⟨t', is', fun part hp => ?_⟩
      rw [List.flatMap_cons, List.filter_append, others (different h hh) part hp, same part hp]
      rfl
    · intro file other part hp
      obtain ⟨first, later⟩ := List.forall_mem_cons.1 other
      rw [List.flatMap_cons, List.filter_append, others first part hp, absent file later part hp]
      rfl

/-- What a file gets for its calls, and for its import, is edits of that file. -/
lemma FileCalls.Of.files (ordered : Snapshot.Ordered s.files) {member : String}
    {g : String × List CallSite} (hg : g ∈ callsByFile (Workspace.ofSnapshot s roots) member)
    {taken : FileCalls} (h : FileCalls.Of (Workspace.ofSnapshot s roots) home path ctx g taken) :
    (∀ e ∈ taken.changed.edits, e.file = g.1) ∧ ∀ e ∈ taken.imported.toList, e.file = g.1 := by
  obtain ⟨known, tree, -⟩ := Workspace.source_eq_ok ordered h.opened
  have stands : taken.source.module.Placed taken.source.text.toList :=
    tree ▸ parse_placed taken.source.text
  have calls : ∀ site ∈ g.2, site.file = g.1 ∧ site.Placed taken.source.text.toList := by
    intro site hs
    have inFile := file_of_mem_callsByFile g hg site hs
    have listed : site ∈ (Workspace.ofSnapshot s roots).callSites member := by
      obtain ⟨entry, he, rfl⟩ := List.mem_map.1 hg
      exact List.mem_flatMap.2 ⟨entry, he, hs⟩
    obtain ⟨text, known', placed⟩ := Workspace.callSites_placed ordered listed
    rw [inFile] at known'
    obtain rfl : taken.source.text = text := Option.some.inj (known.symm.trans known')
    exact ⟨inFile, placed⟩
  refine ⟨fun e he => (CallChanges.ofSites_fits stands calls h.changed e he).file, fun e he => ?_⟩
  rcases h.imported with ⟨none, -⟩ | ⟨p, -, -, ensured⟩
  · rw [none] at he
    nomatch he
  · exact (Import.ensure_fits stands ensured e (Option.mem_toList.1 he)).file

/-- Of all edits of calls and imports, those of one file come from the calls of that file. -/
theorem calls_of_file (ordered : Snapshot.Ordered s.files) {member : String}
    (ran : (groupByFile ((Workspace.ofSnapshot s roots).callSites member)).foldlM
      (fun progress (file, sites) => callsOfFile (Workspace.ofSnapshot s roots) home path ctx
        progress file sites) ⟨[], [], []⟩ = .ok done)
    {source : SourceFile} (opened : (Workspace.ofSnapshot s roots).source file = .ok source) :
    ∃ taken, FileCalls.Of (Workspace.ofSnapshot s roots) home path ctx
        (file, CallSite.ofModule file member source.module) taken
      ∧ taken.source = source
      ∧ done.edits.filter (·.file == file) = taken.changed.edits
      ∧ done.imports.edits.filter (·.file == file) = taken.imported.toList := by
  have distinct := callsByFile_distinct ordered roots member
  rw [groupByFile_callSites ordered] at ran
  have distinct' := distinct.filter fun g => !g.2.isEmpty
  obtain ⟨takens, are, edits, imports⟩ :=
    foldlM_callsOfFile distinct' (fun _ mem => absurd mem List.not_mem_nil) ran
  rw [List.nil_append] at edits
  change done.imports.edits.Perm (_ ++ []) at imports
  rw [List.append_nil] at imports
  have files : ∀ g ∈ (callsByFile (Workspace.ofSnapshot s roots) member).filter
      (fun g => !g.2.isEmpty), ∀ t, FileCalls.Of (Workspace.ofSnapshot s roots) home path ctx g t →
      ∀ part ∈ [(fun t : FileCalls => t.changed.edits), fun t => t.imported.toList],
        ∀ e ∈ part t, e.file = g.1 := by
    intro g hg t is
    obtain ⟨changed, imported⟩ := is.files ordered (List.mem_filter.1 hg).1
    exact List.forall_mem_cons.2 ⟨changed, List.forall_mem_singleton.2 imported⟩
  obtain ⟨known, absent⟩ := exists_taken are distinct' files
  have imports' := imports.filter (·.file == file)
  have listed := mem_callsByFile_of_source opened member
  by_cases calls : CallSite.ofModule file member source.module = []
  · -- a file without calls is not taken
    have away : ∀ g ∈ (callsByFile (Workspace.ofSnapshot s roots) member).filter
        (fun g => !g.2.isEmpty), g.1 ≠ file := by
      intro g hg same
      obtain ⟨hg, some⟩ := List.mem_filter.1 hg
      obtain rfl := List.inj_on_of_nodup_map (List.pairwise_map.2 distinct) hg listed same
      rw [calls] at some
      nomatch some
    have none := absent file away
    rw [none _ (List.mem_cons_of_mem _ List.mem_cons_self)] at imports'
    rw [calls]
    refine ⟨⟨source, ⟨[], []⟩, .none⟩, ⟨opened, CallChanges.ofSites_nil, .inl ⟨rfl, .inl rfl⟩⟩,
      rfl, ?_, List.perm_nil.1 imports'⟩
    rw [edits]
    exact none _ List.mem_cons_self
  · have taken : (file, CallSite.ofModule file member source.module) ∈
        (callsByFile (Workspace.ofSnapshot s roots) member).filter (fun g => !g.2.isEmpty) := by
      refine List.mem_filter.2 ⟨listed, ?_⟩
      rw [Bool.not_eq_true', List.isEmpty_eq_false_iff]
      exact calls
    obtain ⟨t, is, same⟩ := known _ taken
    rw [same _ (List.mem_cons_of_mem _ List.mem_cons_self)] at imports'
    refine ⟨t, is, Except.ok.inj (is.opened.symm.trans opened), ?_, ?_⟩
    · rw [edits]
      exact same _ List.mem_cons_self
    · cases imported : t.imported with
      | none =>
        rw [imported] at imports'
        exact List.perm_nil.1 imports'
      | some e =>
        rw [imported] at imports'
        exact List.perm_singleton.1 imports'

/-! ## All steps -/

/-- What the calls of a plan have in common. -/
def context (request : LiftRequest) (plan : LiftPlan) : CallContext :=
  ⟨request.className, plan.functionName, plan.parameters, plan.style, request.temporaryName⟩

/-- Whether an edit goes into the text of the new function. -/
def isInner (home : String) (d : FunctionDef Stmt) (e : Edit) : Bool :=
  e.file == home && d.mark.span.contains e.span

/-- The steps to a plan and what they gave. -/
structure Making (w : Workspace) (request : LiftRequest) (plan : LiftPlan) (source : SourceFile)
    (target : LiftTarget) (reads : List AttributeRead) (path : Option String) (done : Progress) :
    Prop where
  opened : w.source request.file = .ok source
  found : LiftTarget.find source.module request.file request.className request.method = .ok target
  refused : LiftTarget.refuse source.module source.text request.file target.method = .ok ()
  accepted : Safety.validate (Scope.analyze source.module target.stmt) = .ok reads
  parameters : plan.parameters = ParameterPlan.ofReads reads
    (target.method.name.name :: (Scope.analyze source.module target.stmt).usedNames)
  style : plan.style = argumentStyle target.method.params
  name : plan.functionName = target.method.name.name
  home : plan.home = request.file
  imported : importPath w request.file (w.callSites request.method) = .ok path
  ran : (groupByFile (w.callSites request.method)).foldlM (fun progress (file, sites) =>
    callsOfFile w request.file path (context request plan) progress file sites) ⟨[], [], []⟩
      = .ok done
  function : NewFunction.ofMethod source.text target.stmt plan.parameters plan.style
    (done.edits.filter (isInner request.file target.method)) = .ok plan.function
  edits : Edit.normalize (done.edits.filter (fun e => !isInner request.file target.method e)
    ++ [Lift.removal request.file source.text.toList target,
      Lift.insertion request.file source.text.toList
        (source.module.topLevel (.classDef target.class_)).span.stop plan.function]
    ++ done.imports.edits) = .ok plan.edits
  unambiguous : refuseAmbiguous w request.file target (w.callSites request.method) = .ok ()
  calls : plan.calls = done.calls

lemma liftSafety_eq_ok {α : Type} {x : Except SafetyError α} {a : α} :
    liftSafety x = .ok a ↔ x = .ok a := by
  cases x with
  | error e => exact ⟨nofun, nofun⟩
  | ok b => exact ⟨fun h => congrArg _ (Except.ok.inj h), fun h => congrArg _ (Except.ok.inj h)⟩

theorem make_ok {request : LiftRequest} {plan : LiftPlan} (ok : make w request = .ok plan) :
    ∃ source target reads path done, Making w request plan source target reads path done := by
  unfold make at ok
  obtain ⟨source, opened, ok⟩ := bind_eq_ok.1 ok
  obtain ⟨target, found, ok⟩ := bind_eq_ok.1 ok
  obtain ⟨⟨⟩, refused, ok⟩ := bind_eq_ok.1 ok
  obtain ⟨reads, accepted, ok⟩ := bind_eq_ok.1 ok
  obtain ⟨⟨⟩, unambiguous, ok⟩ := bind_eq_ok.1 ok
  obtain ⟨path, known, ok⟩ := bind_eq_ok.1 ok
  obtain ⟨done, ran, ok⟩ := bind_eq_ok.1 ok
  dsimp only at ok
  rw [List.partition_eq_filter_filter] at ok
  obtain ⟨function, made, ok⟩ := bind_eq_ok.1 ok
  obtain ⟨edits, normalized, ok⟩ := bind_eq_ok.1 ok
  obtain rfl := Except.ok.inj ok
  exact ⟨source, target, reads, path, done, opened, found, refused, liftSafety_eq_ok.1 accepted,
    rfl, rfl, rfl, rfl, known, ran, liftEdit_eq_ok.1 made, liftEdit_eq_ok.1 normalized, unambiguous,
    rfl⟩

/-- The steps give the plan. -/
theorem Making.make_eq {request : LiftRequest} {plan : LiftPlan} {source : SourceFile}
    {target : LiftTarget} {reads : List AttributeRead} (h : Making w request plan source target
      reads path done) : make w request = .ok plan := by
  have same : (⟨request.className, target.method.name.name, ParameterPlan.ofReads reads
      (target.method.name.name :: (Scope.analyze source.module target.stmt).usedNames),
      argumentStyle target.method.params, request.temporaryName⟩ : CallContext)
      = context request plan := by
    rw [context, h.name, h.parameters, h.style]
  unfold make
  refine bind_eq_ok.2 ⟨source, h.opened, bind_eq_ok.2 ⟨target, h.found, bind_eq_ok.2 ⟨(), h.refused,
    bind_eq_ok.2 ⟨reads, liftSafety_eq_ok.2 h.accepted, bind_eq_ok.2 ⟨(), h.unambiguous,
    bind_eq_ok.2 ⟨path, h.imported, bind_eq_ok.2 ⟨done, ?_, ?_⟩⟩⟩⟩⟩⟩⟩
  · rw [same]
    exact h.ran
  · dsimp only
    rw [List.partition_eq_filter_filter, ← h.parameters, ← h.style]
    refine bind_eq_ok.2 ⟨plan.function, liftEdit_eq_ok.2 h.function, bind_eq_ok.2 ⟨plan.edits,
      liftEdit_eq_ok.2 h.edits, ?_⟩⟩
    rw [← h.name, ← h.home, ← h.calls]
    rfl

end LiftPlan

end MethodLift

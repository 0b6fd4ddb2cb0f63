import MethodLift.Proofs.Call.Edits
import MethodLift.Proofs.Lift.Computing

/-!
# Plans can be carried out

The edits of a plan come from five sources: the calls of each file, the imports that new calls need,
the method that leaves its class, the function behind the class's statement, and the changes inside
the method, which go into the function's text and not into the list.  Each of them is computed from
the tree of a file of the workspace, or by line arithmetic from a place in such a tree, so each fits
its file.

That they do not overlap is not shown but tested: a plan is only made if its edits have a normal
form.  Both together are what carrying it out asks for (`make_commits`): an edit that is off a
boundary or in an unknown file would be noticed only when the plan is applied, too late to be
refused.
-/

namespace MethodLift

open MethodLift.Syntax

variable {source : List Char} {m : Module}

/-- An edit that fits the text of its file in a snapshot. -/
lemma Snapshot.Fits.of_fitsIn {s : Snapshot} {file text : String} {e : Edit}
    (known : s.text? file = some text) (h : e.FitsIn file text.toList) : s.Fits e := by
  rw [← h.file] at known
  refine ⟨Option.isSome_iff_exists.2 ⟨text, known⟩, ?_⟩
  intro text' known'
  obtain rfl : text = text' := Option.some.inj (known.symm.trans known')
  exact h.toOnBoundaries

/-- What fits does so with any other text in its place. -/
lemma Snapshot.Fits.of_samePlace {s : Snapshot} {a b : Edit} (same : Edit.SamePlace a b)
    (h : s.Fits b) : s.Fits a := by
  obtain ⟨file, span⟩ := same
  refine ⟨file ▸ h.known, ?_⟩
  intro text known
  have fits := h.boundaries text (file ▸ known)
  exact ⟨span ▸ fits.start, span ▸ fits.stop⟩

/-! ## Imports -/

namespace Import

lemma mem_body_of_lastOfHead? {stmt : Stmt} (h : lastOfHead? m = some stmt) : stmt ∈ m.body := by
  rw [lastOfHead?, Option.or_eq_some_iff] at h
  rcases h with last | ⟨-, docstring⟩
  · have inHead := (List.takeWhile_sublist _).mem (List.mem_of_getLast? last)
    split at inHead
    · exact List.mem_of_mem_drop inHead
    · exact inHead
  · unfold Module.docstring? at docstring
    split at docstring
    next shape =>
      obtain rfl := Option.some.inj docstring
      rw [shape]
      exact List.mem_cons_self
    · nomatch docstring

/-- A new import goes between lines. -/
lemma lineOffset_between (h : m.Placed source) :
    Text.BetweenLines source (lineOffset m source) := by
  unfold lineOffset
  split
  next stmt last =>
    exact (h.body stmt (mem_body_of_lastOfHead? last)).here.span.stop.lineEnd_between
  · have begins : Text.BetweenLines source 0 := .inl ⟨[], source, rfl, rfl, .inl rfl⟩
    exact begins.skipComments _

/-- The imported names of a statement stand in the text. -/
lemma namesFrom?_placed {path : String} {stmt : Stmt} {names : List Alias}
    (h : stmt.Placed source) (found : namesFrom? path stmt = some names) :
    ∀ a ∈ names, Text.Placed source a.span := by
  unfold namesFrom? at found
  split at found
  · split at found
    · obtain rfl := Option.some.inj found
      exact fun a ha => h.here.parts a.span (List.mem_map_of_mem ha)
    · nomatch found
  · nomatch found

/-- The edit that makes a name available fits the text. -/
theorem ensure_fits {text file path symbol : String} {edit : Option Edit}
    (h : m.Placed text.toList) (ok : ensure m text file path symbol = .ok edit) :
    ∀ e ∈ edit, e.FitsIn file text.toList := by
  unfold ensure at ok
  dsimp only at ok
  split at ok
  · obtain rfl := Except.ok.inj ok
    nofun
  split at ok
  · nomatch ok
  split at ok
  next a last =>
    obtain rfl := Except.ok.inj ok
    rintro _ ⟨⟩
    obtain ⟨names, listed, here⟩ := List.exists_of_findSome?_eq_some last
    obtain ⟨stmt, inBody, found⟩ := List.mem_filterMap.1 listed
    exact .insert (namesFrom?_placed (h.body stmt inBody) found a (List.mem_of_getLast? here)).stop
  · obtain rfl := Except.ok.inj ok
    rintro _ ⟨⟩
    exact .insert (lineOffset_between h).boundary

end Import

namespace Imports

lemma mem_edits_insertFile {file : String} {edit : Option Edit} {imports : Imports} {e : Edit}
    (h : e ∈ (insertFile file edit imports).edits) : edit = some e ∨ e ∈ imports.edits := by
  obtain ⟨entry, mem, is⟩ := List.mem_filterMap.1 h
  induction imports with
  | nil =>
    obtain rfl := List.mem_singleton.1 mem
    exact .inl is
  | cons first rest ih =>
    obtain ⟨f, old⟩ := first
    rw [insertFile] at mem h
    split at mem
    · rcases List.mem_cons.1 mem with rfl | mem
      · exact .inl is
      · exact .inr (List.mem_filterMap.2 ⟨entry, mem, is⟩)
    · rcases List.mem_cons.1 mem with rfl | mem
      · exact .inr (List.mem_filterMap.2 ⟨_, List.mem_cons_self, is⟩)
      · have later := ih (List.mem_filterMap.2 ⟨entry, mem, is⟩) mem
        refine later.imp_right fun old => ?_
        obtain ⟨entry', mem', is'⟩ := List.mem_filterMap.1 old
        exact List.mem_filterMap.2 ⟨entry', List.mem_cons_of_mem _ mem', is'⟩

theorem ensure_fits {s : Snapshot} {imports after : Imports} {text file path symbol : String}
    (h : m.Placed text.toList) (known : s.text? file = some text)
    (fits : ∀ e ∈ imports.edits, s.Fits e)
    (ok : imports.ensure m text file path symbol = .ok after) : ∀ e ∈ after.edits, s.Fits e := by
  unfold ensure at ok
  split at ok
  · obtain rfl := Except.ok.inj ok
    exact fits
  · obtain ⟨edit, ensured, ok⟩ := bind_eq_ok.1 ok
    obtain rfl := Except.ok.inj ok
    intro e he
    rcases mem_edits_insertFile he with rfl | old
    · exact .of_fitsIn known (Import.ensure_fits h ensured e rfl)
    · exact fits e old

end Imports

/-! ## The method and the function -/

namespace LiftTarget

/-- The method that is found is one of a class of the tree, and both have the names asked for. -/
theorem find_ok {file className method : String} {t : LiftTarget}
    (found : find m file className method = .ok t) :
    (.classDef t.class_ ∈ m.reachableStmts ∧ t.class_.name.name = className)
      ∧ .functionDef t.method ∈ t.class_.body ∧ t.method.name.name = method := by
  unfold find at found
  split at found
  · nomatch found
  next c classFound =>
  split at found
  · nomatch found
  next d methodFound =>
  obtain rfl := Except.ok.inj found
  obtain ⟨outer, inModule, isClass⟩ := List.exists_of_findSome?_eq_some classFound
  obtain ⟨inner, inClass, isMethod⟩ := List.exists_of_findSome?_eq_some methodFound
  obtain ⟨isClass, className⟩ := Option.filter_eq_some_iff.1 isClass
  obtain ⟨isMethod, name⟩ := Option.filter_eq_some_iff.1 isMethod
  have outer_eq : outer = .classDef c := by
    cases outer with
    | classDef d => rw [Option.some.inj isClass]
    | _ => nomatch isClass
  have inner_eq : inner = .functionDef d := by
    cases inner with
    | functionDef e => rw [Option.some.inj isMethod]
    | _ => nomatch isMethod
  exact ⟨⟨outer_eq ▸ inModule, beq_iff_eq.1 className⟩, inner_eq ▸ inClass, beq_iff_eq.1 name⟩

/-- The method that is found stands in the text. -/
lemma find_placed {file className method : String} {t : LiftTarget} (h : m.Placed source)
    (found : find m file className method = .ok t) :
    (Stmt.classDef t.class_).Placed source ∧ t.stmt.Placed source := by
  obtain ⟨⟨inModule, -⟩, inClass, -⟩ := find_ok found
  have class_ := h.stmts _ inModule
  exact ⟨class_, class_.child inClass⟩

end LiftTarget

namespace Lift

/-- The lines of a method begin and end at cuts, with the blank lines around them too. -/
lemma removal_fits {file : String} {t : LiftTarget} (h : t.stmt.Placed source) :
    (removal file source t).FitsIn file source := by
  have start := h.here.span.start.lineBeginning
  have stop := h.here.span.stop.lineEnd
  unfold removal
  dsimp only
  split
  · exact ⟨⟨start.boundary, stop⟩, rfl⟩
  split
  · exact ⟨⟨(start.skipBlankBefore _).boundary, stop⟩, rfl⟩
  · exact ⟨⟨start.boundary, stop.skipBlankAfter _⟩, rfl⟩

lemma insertion_fits {file : String} {after : ℕ} {f : NewFunction}
    (h : Text.Boundary source after) : (insertion file source after f).FitsIn file source :=
  .insert h.lineEnd

end Lift

namespace Syntax.Module

lemma mem_stmtAncestors_go {n serial : ℕ} {stmt : Stmt}
    (h : stmt ∈ stmtAncestors.go m n serial) : stmt ∈ m.reachableStmts := by
  induction n generalizing serial with
  | zero => nomatch h
  | succ n ih =>
    rw [stmtAncestors.go] at h
    split at h
    next p parent =>
      rcases List.mem_cons.1 h with rfl | h
      · obtain ⟨before, after, parts, -⟩ := List.lookup_eq_some_iff.1 parent
        have listed : (serial, stmt) ∈ m.stmtParents := by
          rw [parts]
          exact List.mem_append_right _ List.mem_cons_self
        obtain ⟨outer, reachable, inner⟩ := List.mem_flatMap.1 listed
        obtain ⟨child, -, same⟩ := List.mem_map.1 inner
        obtain ⟨-, rfl⟩ := Prod.mk.inj same
        exact reachable
      · exact ih h
    · nomatch h

/-- The statement of the body around a statement that stands in the text stands there too. -/
lemma Placed.topLevel (h : m.Placed source) {stmt : Stmt} (inner : stmt.Placed source) :
    (m.topLevel stmt).Placed source := by
  have mem : m.topLevel stmt ∈ stmt :: m.stmtAncestors stmt.serial := List.getLastD_mem_cons
  rcases List.mem_cons.1 mem with same | above
  · rw [same]
    exact inner
  · exact h.stmts _ (mem_stmtAncestors_go above)

end Syntax.Module

/-! ## The calls of all files -/

namespace LiftPlan

/-- A group of calls holds calls of its file that were given. -/
lemma groupByFile_mem {sites : List CallSite} {file : String} {group : List CallSite}
    (h : (file, group) ∈ groupByFile sites) :
    ∀ site ∈ group, site.file = file ∧ site ∈ sites := by
  induction sites generalizing file group with
  | nil => nomatch h
  | cons site sites ih =>
    rw [groupByFile] at h
    have later {file : String} {group : List CallSite} (h : (file, group) ∈ groupByFile sites) :
        ∀ x ∈ group, x.file = file ∧ x ∈ site :: sites :=
      fun x hx => (ih h x hx).imp_right (List.mem_cons_of_mem _)
    have alone : ∀ x ∈ [site], x.file = site.file ∧ x ∈ site :: sites :=
      List.forall_mem_singleton.2 ⟨rfl, List.mem_cons_self⟩
    split at h
    next first others groups shape =>
      have rest : ∀ g ∈ groups, g ∈ groupByFile sites :=
        fun g hg => shape ▸ List.mem_cons_of_mem _ hg
      split at h
      next same =>
        obtain rfl : first = site.file := by simpa using same
        rcases List.mem_cons.1 h with joined | h
        · obtain ⟨rfl, rfl⟩ := Prod.mk.inj joined
          refine List.forall_mem_cons.2 ⟨⟨rfl, List.mem_cons_self⟩, ?_⟩
          exact later (shape ▸ List.mem_cons_self)
        · exact later (rest _ h)
      · rcases List.mem_cons.1 h with opened | h
        · obtain ⟨rfl, rfl⟩ := Prod.mk.inj opened
          exact alone
        · exact later (shape ▸ h)
    · obtain ⟨rfl, rfl⟩ := Prod.mk.inj (List.mem_singleton.1 h)
      exact alone

variable {s : Snapshot} {roots : List String}

/-- Every edit so far, of a call or of an import, can be carried out on its own. -/
structure Progress.Fits (s : Snapshot) (progress : Progress) : Prop where
  imports : ∀ e ∈ progress.imports.edits, s.Fits e
  edits : ∀ e ∈ progress.edits, s.Fits e

theorem callsOfFile_fits (ordered : Snapshot.Ordered s.files) {home file : String}
    {path : Option String} {ctx : CallContext} {progress after : Progress} {sites : List CallSite}
    (calls : ∀ site ∈ sites, site.file = file
      ∧ ∃ text, s.text? site.file = some text ∧ site.Placed text.toList)
    (h : progress.Fits s)
    (ok : callsOfFile (Workspace.ofSnapshot s roots) home path ctx progress file sites
      = .ok after) : after.Fits s := by
  obtain ⟨read, opened, ok⟩ := bind_eq_ok.1 ok
  obtain ⟨known, tree, -⟩ := Workspace.source_eq_ok ordered opened
  have stands : read.module.Placed read.text.toList := tree ▸ parse_placed read.text
  have calls' : ∀ site ∈ sites, site.file = file ∧ site.Placed read.text.toList := by
    intro site mem
    obtain ⟨rfl, text, known', placed⟩ := calls site mem
    obtain rfl : read.text = text := Option.some.inj (known.symm.trans known')
    exact ⟨rfl, placed⟩
  -- the three ways to the imports meet in one continuation
  have rest (imports : Imports) (fits : ∀ e ∈ imports.edits, s.Fits e)
      {reads : List ReplacedRead} (ok : (do
        let changed ← CallChanges.ofSites read.module read.text sites ctx reads
        return (⟨imports, progress.calls ++ changed.changes, progress.edits ++ changed.edits⟩ :
          Progress)) = Except.ok after) : after.Fits s := by
    obtain ⟨changed, ran, ok⟩ := bind_eq_ok.1 ok
    obtain rfl := Except.ok.inj ok
    refine ⟨fits, List.forall_mem_append.2 ⟨h.edits, ?_⟩⟩
    intro e he
    exact .of_fitsIn known (CallChanges.ofSites_fits stands calls' ran e he)
  dsimp only at ok
  split at ok
  · split at ok
    · exact rest _ h.imports ok
    · obtain ⟨imports, ensured, ok⟩ := bind_eq_ok.1 ok
      exact rest _ (Imports.ensure_fits stands known h.imports ensured) ok
  · exact rest _ h.imports ok

/-! ## The whole plan -/

/-- The edits of a plan are normal, and each could be carried out on its own. -/
theorem make_fits (ordered : Snapshot.Ordered s.files) {request : LiftRequest} {plan : LiftPlan}
    (ok : make (Workspace.ofSnapshot s roots) request = .ok plan) :
    Edit.IsNormal plan.edits ∧ ∀ e ∈ plan.edits, s.Fits e := by
  unfold make at ok
  obtain ⟨read, opened, ok⟩ := bind_eq_ok.1 ok
  obtain ⟨known, tree, -⟩ := Workspace.source_eq_ok ordered opened
  have stands : read.module.Placed read.text.toList := tree ▸ parse_placed read.text
  obtain ⟨target, found, ok⟩ := bind_eq_ok.1 ok
  obtain ⟨class_, method⟩ := LiftTarget.find_placed stands found
  obtain ⟨-, -, ok⟩ := bind_eq_ok.1 ok
  obtain ⟨reads, -, ok⟩ := bind_eq_ok.1 ok
  obtain ⟨-, -, ok⟩ := bind_eq_ok.1 ok
  obtain ⟨path, -, ok⟩ := bind_eq_ok.1 ok
  obtain ⟨done, ran, ok⟩ := bind_eq_ok.1 ok
  have fits : done.Fits s := by
    have start : Progress.Fits s ⟨[], [], []⟩ := ⟨fun _ => nofun, fun _ => nofun⟩
    refine foldlM_invariant start ?_ ran
    rintro progress ⟨file, sites⟩ after mem h taken
    refine callsOfFile_fits ordered ?_ h taken
    intro site hs
    obtain ⟨inFile, found⟩ := groupByFile_mem mem site hs
    exact ⟨inFile, Workspace.callSites_placed ordered found⟩
  obtain ⟨function, -, ok⟩ := bind_eq_ok.1 ok
  obtain ⟨edits, normalized, ok⟩ := bind_eq_ok.1 ok
  obtain rfl := Except.ok.inj ok
  have given := liftEdit_eq_ok.1 normalized
  refine ⟨Edit.normalize_isNormal given, ?_⟩
  intro e he
  obtain ⟨e', he', same⟩ := Edit.normalize_place given he
  refine Snapshot.Fits.of_samePlace same ?_
  have leaves : (Lift.removal request.file read.text.toList target).FitsIn request.file
      read.text.toList := Lift.removal_fits method
  have stays : (Lift.insertion request.file read.text.toList
      (read.module.topLevel (.classDef target.class_)).span.stop function).FitsIn request.file
      read.text.toList := Lift.insertion_fits (stands.topLevel class_).here.span.stop
  rcases List.mem_append.1 he' with he' | imported
  · rcases List.mem_append.1 he' with called | moved
    · change e' ∈ (done.edits.partition _).2 at called
      rw [List.partition_eq_filter_filter] at called
      exact fits.edits e' (List.mem_filter.1 called).1
    · rcases List.mem_cons.1 moved with rfl | moved
      · exact .of_fitsIn known leaves
      · obtain rfl := List.mem_singleton.1 moved
        exact .of_fitsIn known stays
  · exact fits.imports e' imported

/-- A plan that is made can be carried out: none of its edits is in an unknown file, beyond the end
of a text, off the boundaries of its characters, or in the way of another one. -/
theorem make_commits (files : List (String × String)) (roots : List String)
    (request : LiftRequest) (plan : LiftPlan)
    (ok : make (Workspace.ofSnapshot (Snapshot.ofList files) roots) request = .ok plan) :
    (∃ after, plan.commit (Snapshot.ofList files) = .ok after)
      ∧ (∀ e ∈ plan.edits, ∃ text, (Snapshot.ofList files).text? e.file = some text
          ∧ e.span.start ≤ e.span.stop ∧ e.span.stop ≤ Text.width text.toList
          ∧ Text.isBoundary text.toList e.span.start = true
          ∧ Text.isBoundary text.toList e.span.stop = true)
      ∧ plan.edits.Pairwise fun a b =>
          a.file = b.file → a.span.stop ≤ b.span.start ∧ a.span ≠ b.span := by
  obtain ⟨normal, fits⟩ := make_fits (Snapshot.ofList_ordered files) ok
  refine ⟨Snapshot.apply_of_isNormal normal fits, ?_, ?_⟩
  · intro e he
    obtain ⟨text, known⟩ := Option.isSome_iff_exists.1 (fits e he).known
    have cuts := (fits e he).boundaries text known
    exact ⟨text, known, normal.forward e he, cuts.stop.le_width,
      Text.isBoundary_iff.2 cuts.start, Text.isBoundary_iff.2 cuts.stop⟩
  · refine normal.apart.imp ?_
    intro a b before same
    exact (before.resolve_left fun less => absurd same less.ne).2

set_option maxRecDepth 100000 in
theorem getter_commits :
    let s := Snapshot.ofList [("a.py", "class A:\n def m(s):s.x\na.m()\n")]
    ∃ plan, make (Workspace.ofSnapshot s []) ⟨"a.py", "A", "m", "receiver"⟩ = .ok plan
      ∧ ∃ after, plan.commit s = .ok after := by
  intro s
  have made :
      ∃ plan, make (Workspace.ofSnapshot s []) ⟨"a.py", "A", "m", "receiver"⟩ = .ok plan := by
    refine exists_of_isOk ?_
    unfold s
    simp only [makeComputed.eq, ofSnapshotComputed.eq]
    decide +kernel
  obtain ⟨plan, ok⟩ := made
  exact ⟨plan, ok, (make_commits _ _ _ plan ok).1⟩

set_option maxRecDepth 100000 in
/-- What is carried out need not be readable.  The span of a call in parentheses includes them, and
what is written before its last byte gets behind its own parentheses. -/
theorem committed_unreadable :
    let text := "class A:\n def m(s):s.x\n(a.m())\n"
    let s := Snapshot.ofList [("a.py", text)]
    let edits : List Edit := [⟨"a.py", ⟨9, 23⟩, " pass\n"⟩,
      ⟨"a.py", ⟨23, 23⟩, "\n\ndef m(x):x\n"⟩, ⟨"a.py", ⟨24, 27⟩, "m"⟩, ⟨"a.py", ⟨29, 29⟩, "a.x"⟩]
    let after := "class A:\n pass\n\n\ndef m(x):x\n(m()a.x)\n"
    (parse text).problems.isEmpty = true
      ∧ (make (Workspace.ofSnapshot s []) ⟨"a.py", "A", "m", "receiver"⟩).toOption.map (·.edits)
          = some edits
      ∧ (s.apply edits).toOption = some (Snapshot.ofList [("a.py", after)])
      ∧ (parse after).problems.isEmpty = false := by
  intro text s edits after
  refine ⟨?_, ?_, ?_, ?_⟩
  · unfold text
    simp only [parseComputed.eq]
    decide +kernel
  · unfold s text edits
    simp only [makeComputed.eq, ofSnapshotComputed.eq]
    decide +kernel
  · unfold s text edits after
    simp only [Snapshot.applyComputed.eq]
    decide +kernel
  · unfold after
    simp only [parseComputed.eq]
    decide +kernel

end LiftPlan

end MethodLift

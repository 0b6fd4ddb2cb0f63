import MethodLift.Proofs.Lift.Computing
import MethodLift.Proofs.Lift.Exchange

/-!
# The instance is gone

The text of the new function is the method's own with edits, and two kinds of them can remove a read
of an attribute: the replacement of the read by its parameter, and the edit that puts the function's
name in the place of a callee, for a call in the method itself whose receiver contains the read.
Which of the two it is, is decided twice: while the calls are taken, a receiver takes reads and
earlier callees over, and when the text of the function is put together, reads that a callee covers
are left to it.  Both decisions agree (`reads_replaced_once`): one edit covers a read, and if it is a
callee, then the read was replaced where the callee's receiver was written.

Every name that means the instance stands in such a read.  So the text of the function has nothing of
them: it is the same whatever characters stand there.
-/

namespace MethodLift

open MethodLift.Syntax MethodLift.Scope

/-! ## The calls in the method -/

namespace CallChanges

variable {m : Module} {text : String} {ctx : CallContext} {reads : List ReplacedRead}

/-- The lines that temporaries are assigned in are insertions. -/
lemma temporaries_empty {sites : List CallSite} {progress done : Progress}
    (stands : ∀ site ∈ sites, ∃ receiver, site.Stands m receiver)
    (before : ∀ t ∈ progress.temporaries, t.edit.span.isEmpty = true)
    (ran : sites.foldlM (step m text ctx reads) progress = .ok done) :
    ∀ t ∈ done.temporaries, t.edit.span.isEmpty = true := by
  refine foldlM_invariant (P := fun p => ∀ t ∈ p.temporaries, t.edit.span.isEmpty = true) before
    ?_ ran
  intro progress site after hs h stepped
  obtain ⟨receiver, stands⟩ := stands site hs
  obtain ⟨-, written, arguments, taking⟩ := step_ok stands.receiver stepped
  rcases taking.kept with ⟨-, same, -⟩ | ⟨stmt, name, -, -, -, added, -⟩
  · rwa [same]
  · rw [added]
    exact List.forall_mem_append.2 ⟨h, List.forall_mem_singleton.2 (Span.isEmpty_point _)⟩

/-- How a read is removed from a text with some edits: one edit covers it. -/
inductive Removed (m : Module) (text : String) (ctx : CallContext) (reads : List ReplacedRead)
    (sites : List CallSite) (edits : List Edit) (r : ReplacedRead) : Prop
  /-- The edit puts the parameter in the place of the read. -/
  | replaced (only : Edit.coverings r.span edits = [NewFunction.replace r.span r.parameter])
  /-- The edit puts the function's name in the place of a callee, in the receiver of which the read
  was replaced. -/
  | takenOver {before after : List CallSite} {site : CallSite}
    (only : Edit.coverings r.span edits = [calleeEdit ctx site])
    (order : innermostFirst sites = before ++ site :: after)
    (taken : TakenOver m text ctx reads r before site)

end CallChanges

namespace LiftPlan

open CallChanges

/-- Where the names in a method that mean its instance stand. -/
def instanceMentions (m : Module) (d : FunctionDef Stmt) : List Span :=
  ((references (methodEvents m d)).filter fun r => r.name == instanceName d
    && resolve (methodEvents m d) r.name r.frame.chain == some (.stmt d.mark.serial)).map (·.span)

variable {m : Module} {text home : String} {ctx : CallContext} {d : FunctionDef Stmt}
  {c : ClassDef Stmt} {plan : ParameterPlan} {accepted : List AttributeRead}
  {changed : CallChanges} {member : String}

/-- Where the calls of the home have been taken, each accepted read is removed once. -/
theorem removed_of_ofSites (laid : m.Laid) (method : IsMethod m c d)
    (passed : Safety.Passed (analyze m (.functionDef d)) accepted)
    (same : (plan.replacedReads.map (·.span)).Perm (accepted.map (·.span)))
    (ran : ofSites m text (CallSite.ofModule home member m) ctx plan.replacedReads = .ok changed)
    {r : ReplacedRead} (hr : r ∈ plan.replacedReads) :
    let inner := changesIn home text.toList d changed.edits
    Removed m text ctx plan.replacedReads (CallSite.ofModule home member m)
      (NewFunction.readEdits plan inner ++ inner) r := by
  intro inner
  have reads := accepted_of_passed laid method passed same
  have nonempty := reads.nonempty laid hr
  obtain ⟨done, run, whole⟩ := bind_eq_ok.1 ran
  obtain rfl := Except.ok.inj whole
  have order := innermostFirst_inOrder home member laid
  have lines : Edit.coverings r.span ((temporariesInOrder done.temporaries).map (·.edit)) = [] := by
    refine Edit.coverings_eq_nil_of_empty r.span fun e he => ?_
    obtain ⟨t, ht, rfl⟩ := List.mem_map.1 he
    exact temporaries_empty order.stands (List.forall_mem_nil _) run t (List.mem_mergeSort.1 ht)
  have kept : Edit.coverings r.span inner = NewFunction.innerEdits
      (Text.lineStart text.toList d.mark.span.start) d.mark.span.stop
      ((Edit.coverings r.span done.pending).filter (isInner home d)) := by
    rw [← List.nil_append (Edit.coverings r.span done.pending), ← lines, ← Edit.coverings_append]
    exact List.filter_comm .. |>.trans (congrArg _ (List.filter_comm ..))
  have only := NewFunction.coverings_readEdits inner reads.apart hr nonempty
  rcases covered_of_foldlM laid order reads hr run with
    none | ⟨before, site, after, parts, some, taken⟩
  · rw [none, List.filter_nil] at kept
    rw [kept] at only
    exact .replaced only
  · -- the callee is inside the method, so its edit is one of those in the function's text
    have listed : site ∈ innermostFirst (CallSite.ofModule home member m) := by
      rw [parts]
      exact List.mem_append_right _ List.mem_cons_self
    obtain ⟨inHome, receiver, stands⟩ := CallSite.ofModule_stands laid (List.mem_mergeSort.1 listed)
    have covers : site.func.span.contains r.span = true := by
      have mem : calleeEdit ctx site ∈ Edit.coverings r.span done.pending := by
        rw [some]
        exact List.mem_singleton.2 rfl
      exact (Edit.mem_coverings.1 mem).2.2
    obtain ⟨n, hn, -, span⟩ := exists_node_of_read laid method passed same hr
    rw [← span] at covers nonempty
    have inMethod := callee_inMethod laid method stands hn nonempty covers
    have isInner : isInner home d (calleeEdit ctx site) = true := by
      rw [LiftPlan.isInner, Bool.and_eq_true, beq_iff_eq]
      exact ⟨inHome, inMethod⟩
    have inLines : Text.lineStart text.toList d.mark.span.start ≤ (calleeEdit ctx site).span.start
        ∧ (calleeEdit ctx site).span.stop ≤ d.mark.span.stop :=
      (Span.contains_iff.1 inMethod).imp_left (Nat.sub_le _ _).trans
    rw [some, List.filter_cons_of_pos isInner, List.filter_nil, NewFunction.innerEdits,
      List.filter_cons_of_pos (by simpa using inLines), List.filter_nil] at kept
    rw [kept, if_neg (List.cons_ne_nil _ _)] at only
    exact .takenOver only parts taken

/-- A name that means the instance stands in a read that is replaced. -/
lemma exists_read_around (laid : m.Laid) (method : IsMethod m c d)
    (passed : Safety.Passed (analyze m (.functionDef d)) accepted)
    (same : (plan.replacedReads.map (·.span)).Perm (accepted.map (·.span))) {place : Span}
    (hp : place ∈ instanceMentions m d) :
    ∃ r ∈ plan.replacedReads, r.span.contains place = true := by
  obtain ⟨reference, hr, rfl⟩ := List.mem_map.1 hp
  obtain ⟨hr, means⟩ := List.mem_filter.1 hr
  rw [Bool.and_eq_true, beq_iff_eq, beq_iff_eq] at means
  obtain ⟨a, ha, isRead⟩ := passed.isRead hr means.2 means.1
  obtain ⟨n, -, -, -, inside⟩ := isRead.exists_access laid method
  obtain ⟨r, hr, at_⟩ := List.mem_map.1 (same.symm.subset (List.mem_map_of_mem ha))
  exact ⟨r, hr, at_ ▸ Span.contains_iff.2 inside⟩

/-! ## The whole plan -/

/-- What a plan says of the instance of the method that it lifts: `accepted` are the reads that the
checks let through, and `changed` is what the calls in the home become. -/
structure Eliminated (s : Snapshot) (request : LiftRequest) (plan : LiftPlan) (text : String)
    (target : LiftTarget) (accepted : List AttributeRead) (changed : CallChanges) : Prop where
  known : s.text? request.file = some text
  found : LiftTarget.find (parse text).module request.file request.className request.method
    = .ok target
  validated : Safety.validate (analyze (parse text).module target.stmt) = .ok accepted
  reads : (plan.parameters.replacedReads.map (·.span)).Perm (accepted.map (·.span))
  calls : ofSites (parse text).module text
    (CallSite.ofModule request.file request.method (parse text).module) (context request plan)
    plan.parameters.replacedReads = .ok changed
  function : NewFunction.ofMethod text target.stmt plan.parameters plan.style
    (changed.edits.filter (isInner request.file target.method)) = .ok plan.function
  /-- One of the edits that the text of the function is made with covers a read: its replacement, or
  a callee that has taken it over. -/
  removed : ∀ r ∈ plan.parameters.replacedReads,
    Removed (parse text).module text (context request plan) plan.parameters.replacedReads
      (CallSite.ofModule request.file request.method (parse text).module)
      (NewFunction.readEdits plan.parameters
          (changesIn request.file text.toList target.method changed.edits)
        ++ changesIn request.file text.toList target.method changed.edits) r
  /-- No text is copied from where a name means the instance: with other characters there, the calls
  become the same, and so does the function. -/
  written : ∀ other, Exchanged (context request plan)
      (instanceMentions (parse text).module target.method) text other →
    ofSites (parse text).module other
        (CallSite.ofModule request.file request.method (parse text).module) (context request plan)
        plan.parameters.replacedReads = .ok changed
      ∧ NewFunction.ofMethod other target.stmt plan.parameters plan.style
        (changed.edits.filter (isInner request.file target.method)) = .ok plan.function

/-- Of a plan that is made, each accepted read is removed by one edit, however calls of the method
are nested in it, and nothing in the function's text stems from a name that means the instance. -/
theorem reads_replaced_once (files : List (String × String)) (roots : List String)
    (request : LiftRequest) (plan : LiftPlan)
    (ok : make (Workspace.ofSnapshot (Snapshot.ofList files) roots) request = .ok plan) :
    ∃ text target accepted changed,
      Eliminated (Snapshot.ofList files) request plan text target accepted changed := by
  have ordered := Snapshot.ofList_ordered files
  obtain ⟨normal, -⟩ := make_fits ordered ok
  obtain ⟨source, target, accepted, path, done, making⟩ := make_ok ok
  obtain ⟨known, tree, valid⟩ := Workspace.source_eq_ok ordered making.opened
  have laid := parse_laid valid
  obtain ⟨taken, is, rfl, edits, -⟩ := calls_of_file ordered making.ran making.opened
  have found := making.found
  have validated := making.accepted
  have changed := is.changed
  have function := making.function
  rw [tree] at found validated changed
  dsimp only at changed
  rw [beq_self_eq_true, if_pos rfl] at changed
  have inner : done.edits.filter (isInner request.file target.method)
      = taken.changed.edits.filter (isInner request.file target.method) := by
    rw [← edits, List.filter_filter]
    refine List.filter_congr fun e _ => ?_
    rw [isInner, Bool.and_right_comm, Bool.and_self]
  rw [inner] at function
  have method := isMethod_of_find found
  have passed := Safety.validate_ok validated
  have same : (plan.parameters.replacedReads.map (·.span)).Perm (accepted.map (·.span)) := by
    rw [making.parameters]
    exact ParameterPlan.replacedReads_ofReads _ _
  refine ⟨taken.source.text, target, accepted, taken.changed, known, found, validated, same,
    changed, function, fun r hr => removed_of_ofSites laid method passed same changed hr,
    fun other exchanged => ?_⟩
  set mentions := instanceMentions (parse taken.source.text).module target.method
  -- all mentions are in the home
  let places (file : String) : List Span := if file == request.file then mentions else []
  have here : places request.file = mentions := if_pos (beq_self_eq_true _)
  have replaced : ∀ file, ∀ place ∈ places file,
      Replaces (Workspace.ofSnapshot (Snapshot.ofList files) roots) request plan file place := by
    intro file place hp
    by_cases atHome : file == request.file
    · obtain rfl := eq_of_beq atHome
      rw [here] at hp
      exact ⟨_, making.opened, .inr ⟨rfl, exists_read_around laid method passed same hp⟩⟩
    · rw [show places file = [] from if_neg atHome] at hp
      cases hp
  rw [← here] at exchanged
  have calls := making.calls_exchange ordered replaced making.opened exchanged
    (by rw [beq_self_eq_true, if_pos rfl, tree]; exact changed)
  rw [beq_self_eq_true, if_pos rfl, tree] at calls
  exact ⟨calls, inner ▸ making.function_exchange ordered replaced normal exchanged.same⟩

set_option maxRecDepth 100000 in
/-- A call in the receiver of another call, with reads in both.  The function is the same with
something else in the place of the instance. -/
theorem nested_calls_eliminated :
    let s := Snapshot.ofList [("a.py", "class A:\n def m(s):s.x.m(s.x).m()\n")]
    ∃ plan, make (Workspace.ofSnapshot s []) ⟨"a.py", "A", "m", "t"⟩ = .ok plan
      ∧ ∃ text target accepted changed,
        Eliminated s ⟨"a.py", "A", "m", "t"⟩ plan text target accepted changed
        ∧ NewFunction.ofMethod "class A:\n def m(s):+.x.m(+.x).m()\n" target.stmt plan.parameters
          plan.style (changed.edits.filter (isInner "a.py" target.method)) = .ok plan.function := by
  intro s
  have made : ∃ plan, make (Workspace.ofSnapshot s []) ⟨"a.py", "A", "m", "t"⟩ = .ok plan := by
    refine exists_of_isOk ?_
    unfold s
    simp only [makeComputed.eq, ofSnapshotComputed.eq]
    decide +kernel
  obtain ⟨plan, ok⟩ := made
  obtain ⟨text, target, accepted, changed, eliminated⟩ := reads_replaced_once _ _ _ plan ok
  have whole : "class A:\n def m(s):s.x.m(s.x).m()\n" = text := by
    have known := eliminated.known
    exact Option.some.inj known
  subst whole
  refine ⟨plan, ok, _, target, accepted, changed, eliminated,
    (eliminated.written _ (.of_names ?_ ?_)).2⟩
  · have computed : (LiftTarget.find (parse "class A:\n def m(s):s.x.m(s.x).m()\n").module "a.py"
        "A" "m").toOption.all (fun target => decide (Text.SameBut
          (instanceMentions (parse "class A:\n def m(s):s.x.m(s.x).m()\n").module target.method) 0
          "class A:\n def m(s):s.x.m(s.x).m()\n".toList
          "class A:\n def m(s):+.x.m(+.x).m()\n".toList)) = true := by
      simp only [parseComputed.eq, instanceMentions]
      decide +kernel
    rw [eliminated.found] at computed
    exact of_decide_eq_true computed
  · simp only [lex_eq_lexed]
    decide +kernel

end LiftPlan

end MethodLift

import MethodLift.Proofs.Call.Landing
import MethodLift.Proofs.Lift.Computing
import MethodLift.Proofs.Lift.Removal
import MethodLift.Proofs.Method.Replacement

/-!
# Edits of calls do not collide

Edits can collide at two places: in the text of a receiver, where edits that it takes over meet the
replacements of reads, and in the file, where what no receiver took over meets the lines that keep
receivers.  In the file they lie apart (`edits_apart`).  In a receiver, what it takes over lies apart
because it did so while it was pending, and a read is inside a callee or apart from it; a read inside
one is left to it.  What remains to be seen is that no read has a place in its middle where a call
puts text: a read stands beside the place, since it is an attribute of a name and the place is at an
end of an argument (`Stands.access_beside_place`).  So the text of every receiver is found, and
taking a call never fails with an error of its edits (`receiverText_ok`).
-/

namespace MethodLift

open MethodLift.Syntax

namespace CallSite.Stands

variable {m : Module} {site : CallSite} {receiver : Expr}

/-- Where a call puts text, no accepted read goes on. -/
lemma access_beside_place (laid : m.Laid) (h : site.Stands m receiver) (framed : site.Framed)
    {x : Node} (access : Safety.IsAccess m x) {offset : ℕ} (place : site.Place offset) :
    x.span.Apart (.point offset) := by
  have inside := framed.place (fun a ha => h.value_nonempty laid ha) place
  have begins := h.start_le laid
  have runs := h.callee_nonempty laid
  rcases laid.nested_or_apart access.mem h.call with (around | within) | before | behind
  · exact absurd around access.call_notMem
  · have notCall : x ≠ site.node := by
      rintro rfl
      exact access.call_notMem (Node.self_mem_all _)
    rcases h.inside_cases within notCall (access.notCalled _ h.call _ _ _ rfl) with
      into | ⟨a, ha, into⟩
    · exact .inl ((h.inReceiver laid into).2.trans inside.1).le
    · obtain ⟨start, stop⟩ := h.inValue laid ha into
      cases place with
      | @front b sole =>
        obtain rfl : a = b := List.mem_singleton.1 (sole ▸ ha)
        exact .inr start
      | @behind b last =>
        have ends := h.value_stop_le laid ha last
        have same := framed.stop b (List.mem_of_getLast? last)
        exact .inl (stop.trans (ends.trans same.ge))
      | closing none =>
        rw [none] at ha
        nomatch ha
  · change x.span.stop ≤ site.span.start at before
    exact .inl (by change _ ≤ offset; omega)
  · change site.span.stop ≤ x.span.start at behind
    exact .inr (by change offset ≤ _; omega)

end CallSite.Stands

namespace CallChanges

open CallSite (Framed)

variable {m : Module} {text : String} {ctx : CallContext} {reads : List ReplacedRead}
  {progress : Progress} {site : CallSite} {receiver : Expr}

/-! ## In a receiver -/

/-- Reads that lie apart are added to edits that lie apart, each of which covers a read or lies apart
from it. -/
lemma foldl_foldRead_apart {file : String} {area : Span} {edits : List Edit}
    (alone : reads.Pairwise fun a b => a.span.Apart b.span)
    (apart : edits.Pairwise fun a b => a.span.Apart b.span)
    (beside : ∀ e ∈ edits, ∀ r ∈ reads, e ∈ Edit.coverings
        (within area.start (replacement file r)).span edits
      ∨ e.span.Apart (within area.start (replacement file r)).span) :
    (reads.foldl (foldRead file area) edits).Pairwise fun a b => a.span.Apart b.span := by
  induction reads generalizing edits with
  | nil => exact apart
  | cons r reads ih =>
    obtain ⟨first, alone⟩ := List.pairwise_cons.1 alone
    rw [List.foldl_cons, foldRead_eq]
    split
    next added =>
      refine ih alone (List.pairwise_append.2 ⟨apart, List.pairwise_singleton .., ?_⟩) ?_
      · intro e he _ new
        obtain rfl := List.mem_singleton.1 new
        refine (beside e he r List.mem_cons_self).resolve_left fun covers => ?_
        rw [added.2] at covers
        nomatch covers
      · intro e he r' hr'
        rw [Edit.coverings_append, List.mem_append]
        rcases List.mem_append.1 he with he | new
        · exact (beside e he r' (List.mem_cons_of_mem _ hr')).imp_left .inl
        · obtain rfl := List.mem_singleton.1 new
          exact .inr ((first r' hr').imp (Nat.sub_le_sub_right · _) (Nat.sub_le_sub_right · _))
    · exact ih alone apart fun e he r' hr' => beside e he r' (List.mem_cons_of_mem _ hr')

/-- A pending edit covers an accepted read or lies apart from it. -/
lemma pending_beside_read {done : List CallSite} (laid : m.Laid)
    (framed : ∀ other ∈ done, other.Framed)
    (stands : ∀ other ∈ done, ∃ receiver, other.Stands m receiver) (accepted : Accepted m reads)
    (ran : done.foldlM (step m text ctx reads) (start text ctx) = .ok progress)
    {e : Edit} (he : e ∈ progress.pending) {r : ReplacedRead} (hr : r ∈ reads) :
    (e.span.isEmpty = false ∧ e.span.contains r.span = true) ∨ e.span.Apart r.span := by
  obtain ⟨other, ho, arguments, added⟩ := exists_ownEdits stands ran e he
  obtain ⟨receiver, stands⟩ := stands other ho
  rcases ownEdits_changes (framed other ho) _ _ _ e added with callee | ⟨offset, place, point⟩
  · rw [callee, Span.isEmpty_eq_false]
    rcases accepted.inReceiver_or_apart laid stands hr with inside | apart
    · exact .inl ⟨stands.callee_nonempty laid,
        Span.contains_trans (stands.callee_contains_receiver laid) inside⟩
    · exact .inr apart.symm
  · obtain ⟨n, access, same⟩ := accepted.access r hr
    rw [point, ← same]
    exact .inr (stands.access_beside_place laid (framed other ho) access place).symm

/-- The edits of a receiver lie apart. -/
theorem receiverEdits_apart {done : List CallSite} (laid : m.Laid)
    (framed : ∀ other ∈ done, other.Framed) (order : InOrder m done) (accepted : Accepted m reads)
    (ran : done.foldlM (step m text ctx reads) (start text ctx) = .ok progress)
    (file : String) (area : Span) : (receiverEdits file area progress.pending reads).Pairwise
      fun a b => a.span.Apart b.span := by
  refine foldl_foldRead_apart accepted.apart ?_ ?_
  · refine List.pairwise_map.2 (((pending_apart laid framed order ran).filter _).imp fun apart => ?_)
    exact apart.imp (Nat.sub_le_sub_right · _) (Nat.sub_le_sub_right · _)
  · intro e he r hr
    obtain ⟨x, hx, rfl⟩ := List.mem_map.1 he
    obtain ⟨hx, inside⟩ := List.mem_filter.1 hx
    rcases pending_beside_read laid framed order.stands accepted ran hx hr with
      ⟨nonempty, covers⟩ | apart
    · refine .inl (Edit.mem_coverings.2 ⟨he, ?_, ?_⟩)
      · rwa [isEmpty_within (Span.contains_iff.1 inside).1]
      · rw [Span.contains_iff] at covers ⊢
        exact ⟨Nat.sub_le_sub_right covers.1 _, Nat.sub_le_sub_right covers.2 _⟩
    · exact .inr (apart.imp (Nat.sub_le_sub_right · _) (Nat.sub_le_sub_right · _))

/-- An edit in a receiver stands at cuts of the receiver's text. -/
lemma onBoundaries_within {source : List Char} {area : Span} {e : Edit}
    (placed : Text.Placed source area) (fits : Edit.OnBoundaries source e)
    (forward : e.span.start ≤ e.span.stop) (inside : area.contains e.span = true) :
    Edit.OnBoundaries (Text.slice source area) (within area.start e) := by
  obtain ⟨start, stop⟩ := Span.contains_iff.1 inside
  exact ⟨placed.start.in_slice fits.start placed.stop start (forward.trans stop),
    placed.start.in_slice fits.stop placed.stop (start.trans forward) stop⟩

/-- Expressions of the tree stand at cuts of the text. -/
lemma placed_of_mem_nodes {n : Node} {e : Expr} (mem : n ∈ (parse text).module.nodes)
    (is : n.expr? = some e) : Text.Placed text.toList e.span := by
  have reachable : e ∈ (parse text).module.reachableExprs :=
    Module.filterMap_expr?_nodes.mem_iff.1 (List.mem_filterMap.2 ⟨n, mem, is⟩)
  have listed : e ∈ (parse text).module.exprs :=
    List.mem_mergeSort.2 (List.mem_append_left _ reachable)
  exact ((parse_placed text).exprs e listed).here.span

/-- Accepted reads stand at cuts of the text. -/
lemma Accepted.placed (accepted : Accepted (parse text).module reads) {r : ReplacedRead}
    (hr : r ∈ reads) : Text.Placed text.toList r.span := by
  obtain ⟨n, access, same⟩ := accepted.access r hr
  obtain ⟨_, _, _, _, isAttr, -⟩ := access.object
  rw [← same, Node.span_of_expr? isAttr]
  exact placed_of_mem_nodes access.mem isAttr

/-- The text of a receiver is found, whatever calls were taken before. -/
theorem receiverText_ok {done : List CallSite} (valid : (parse text).problems = [])
    (order : InOrder (parse text).module done) (inFile : ∀ other ∈ done, other.file = site.file)
    (stands : site.Stands (parse text).module receiver)
    (accepted : Accepted (parse text).module reads)
    (ran : done.foldlM (step (parse text).module text ctx reads) (start text ctx)
      = .ok progress) :
    ∃ written, receiverText site.file text receiver.span
      (progress.pending.filter fun e => receiver.span.contains e.span) reads = .ok written := by
  have laid := parse_laid valid
  have framed : ∀ other ∈ done, other.Framed :=
    fun other ho => (order.stands other ho).elim fun _ stands => stands.framed valid
  have fits : progress.Fits site.file text.toList :=
    fits_of_foldlM (parse_placed text) (fun other ho =>
      ⟨inFile other ho, (order.stands other ho).elim fun _ stands => stands.placed⟩) ran
  have area : Text.Placed text.toList receiver.span :=
    placed_of_mem_nodes (Module.mem_nodes_of_mem_parts stands.callee_mem stands.receiver_mem_parts)
      (Node.expr?_read receiver)
  have forward : ∀ e ∈ progress.pending, e.span.start ≤ e.span.stop := by
    intro e he
    obtain ⟨other, ho, arguments, added⟩ := exists_ownEdits order.stands ran e he
    obtain ⟨receiver', stands'⟩ := order.stands other ho
    exact (stands'.changes_inside laid (framed other ho)
      (ownEdits_changes (framed other ho) _ _ _ e added)).2.2.1
  have each : ∀ e ∈ receiverEdits site.file receiver.span progress.pending reads,
      e.file = site.file ∧ e.span.start ≤ e.span.stop
        ∧ e.OnBoundaries (Text.slice text.toList receiver.span) := by
    intro e he
    rcases mem_receiverEdits he with ⟨x, hx, inside, rfl⟩ | ⟨r, hr, inside, rfl⟩
    · have placed := fits.pending x hx
      exact ⟨placed.file, Nat.sub_le_sub_right (forward x hx) _,
        onBoundaries_within area placed.toOnBoundaries (forward x hx) inside⟩
    · have placed := accepted.placed hr
      exact ⟨rfl, Nat.sub_le_sub_right placed.forward _,
        onBoundaries_within area ⟨placed.start, placed.stop⟩ placed.forward inside⟩
  obtain ⟨edits, normalized⟩ := Edit.normalize_ok
    (receiverEdits_apart laid framed order accepted ran site.file receiver.span)
    fun e he => (each e he).2.1
  have given : ∀ e ∈ edits, e.file = site.file
      ∧ e.OnBoundaries (Text.sliceString text receiver.span).toList := by
    intro e he
    obtain ⟨x, hx, file, span⟩ := Edit.normalize_place normalized he
    obtain ⟨inFile, -, placed⟩ := each x hx
    rw [Text.sliceString, String.toList_ofList]
    exact ⟨file.trans inFile, span ▸ placed.start, span ▸ placed.stop⟩
  obtain ⟨written, done⟩ := (Edit.normalize_isNormal normalized).apply_ok
    (fun e he => (given e he).1) fun e he => (given e he).2
  exact ⟨written, bind_eq_ok.2 ⟨edits, normalized, done⟩⟩

/-- Taking a call does not fail with an error of its edits if the text of its receiver is found. -/
lemma step_ne_edit (received : site.receiver = some receiver)
    (found : ∃ written, receiverText site.file text receiver.span
      (progress.pending.filter fun e => receiver.span.contains e.span) reads = .ok written)
    (e : EditError) : step m text ctx reads progress site ≠ .error (.edit e) := by
  intro failed
  obtain ⟨written, found⟩ := found
  unfold step at failed
  rw [received] at failed
  rcases bind_eq_error.1 failed with refused | ⟨_, -, failed⟩
  · unfold refuseObstacle at refused
    split at refused <;> nomatch refused
  rcases bind_eq_error.1 failed with refused | ⟨_, -, failed⟩
  · unfold refuseShadowed at refused
    split at refused
    · split at refused <;> nomatch refused
    · nomatch refused
  dsimp only at failed
  rw [List.partition_eq_filter_filter, found] at failed
  rcases bind_eq_error.1 failed with refused | ⟨_, -, failed⟩
  · nomatch refused
  split at failed
  · rcases bind_eq_error.1 failed with refused | ⟨_, -, failed⟩
    · unfold anchorOf at refused
      split at refused <;> nomatch refused
    · nomatch failed
  · nomatch failed

/-! ## In a file -/

/-- Edits of calls never collide, neither in the text of a receiver nor in the file: for some of the
calls of a member in a text without problems, in any order, and for the accepted reads of a method of
the text, no error of edits is met, and what the calls become can be brought into normal form and
carried out. -/
theorem calls_never_collide (text file member : String) (ctx : CallContext)
    {sites : List CallSite} {reads : List ReplacedRead} {accepted : List AttributeRead}
    {c : ClassDef Stmt} {d : FunctionDef Stmt} (valid : (parse text).problems = [])
    (some : sites.Subperm (CallSite.ofModule file member (parse text).module))
    (method : Scope.IsMethod (parse text).module c d)
    (passed : Safety.validate (Scope.analyze (parse text).module (.functionDef d)) = .ok accepted)
    (same : (reads.map (·.span)).Perm (accepted.map (·.span))) :
    (∀ e, ofSites (parse text).module text sites ctx reads ≠ .error (.edit e))
      ∧ ∀ changed, ofSites (parse text).module text sites ctx reads = .ok changed →
        ∃ edits out, Edit.normalize changed.edits = .ok edits
          ∧ Edit.apply text edits = .ok out := by
  have laid := parse_laid valid
  have order := inOrder_of_subperm laid some
  have reads' := accepted_of_passed laid method (Safety.validate_ok passed) same
  have inFile : ∀ site ∈ innermostFirst sites, site.file = file := fun site hs =>
    (CallSite.ofModule_stands laid (some.subset (List.mem_mergeSort.1 hs))).1
  constructor
  · intro e failed
    rcases bind_eq_error.1 failed with failed | ⟨done, -, whole⟩
    · obtain ⟨before, site, behind, progress, parts, ran, failed⟩ := foldlM_eq_error failed
      rw [parts] at order inFile
      have here : site ∈ before ++ site :: behind :=
        List.mem_append_right _ List.mem_cons_self
      obtain ⟨receiver, stands⟩ := order.stands site here
      refine step_ne_edit stands.receiver ?_ e failed
      refine receiverText_ok valid order.of_append (fun other ho => ?_) stands reads' ran
      exact (inFile other (List.mem_append_left _ ho)).trans (inFile site here).symm
    · nomatch whole
  · intro changed ok
    obtain ⟨edits, out, normalized, applied, -⟩ := edits_apply valid some ok
    exact ⟨edits, out, normalized, applied⟩

set_option maxRecDepth 100000 in
/-- A call in the receiver of another call, with a read in the receiver and the argument of the
first one. -/
theorem recursive_calls_never_collide :
    let text := "class A:\n def m(s):s.x.m(s.y).m()\n"
    let m := (parse text).module
    let sites := CallSite.ofModule "a.py" "m" m
    ∃ target accepted changed edits out,
      let reads := (ParameterPlan.ofReads accepted []).replacedReads
      let ctx : CallContext := ⟨"A", "m", [⟨"x", "x", []⟩], .positional, "t"⟩
      LiftTarget.find m "a.py" "A" "m" = .ok target
        ∧ Safety.validate (Scope.analyze m target.stmt) = .ok accepted
        ∧ (∀ e, ofSites m text sites ctx reads ≠ .error (.edit e))
        ∧ ofSites m text sites ctx reads = .ok changed
        ∧ Edit.normalize changed.edits = .ok edits ∧ Edit.apply text edits = .ok out := by
  intro text m sites
  let ctx : CallContext := ⟨"A", "m", [⟨"x", "x", []⟩], .positional, "t"⟩
  have valid : (parse text).problems = [] := by
    refine List.isEmpty_iff.1 ?_
    unfold text
    simp only [parseComputed.eq]
    decide +kernel
  have computed : ((LiftTarget.find m "a.py" "A" "m").toOption.any fun target =>
      (Safety.validate (Scope.analyze m target.stmt)).toOption.any fun accepted =>
        (ofSites m text sites ctx (ParameterPlan.ofReads accepted []).replacedReads).isOk)
      = true := by
    unfold sites m text ctx
    simp only [parseComputed.eq, sitesComputed.eq, analyzeComputed.eq, ofSitesComputed.eq]
    decide +kernel
  clear_value text
  obtain ⟨target, found, computed⟩ := (Option.any_eq_true _ _).1 computed
  obtain ⟨accepted, validated, computed⟩ := (Option.any_eq_true _ _).1 computed
  obtain ⟨changed, ok⟩ := exists_of_isOk computed
  rw [toOption_eq_some] at found validated
  obtain ⟨never, whenever⟩ := calls_never_collide text "a.py" "m" ctx valid (.refl sites)
    (LiftPlan.isMethod_of_find found) validated (ParameterPlan.replacedReads_ofReads accepted [])
  obtain ⟨edits, out, normalized, applied⟩ := whenever changed ok
  exact ⟨target, accepted, changed, edits, out, found, validated, never, ok, normalized, applied⟩

end CallChanges

end MethodLift

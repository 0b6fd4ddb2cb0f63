import MethodLift.Proofs.Call.Edits
import MethodLift.Proofs.Call.Nesting
import MethodLift.Proofs.Method.FreshName

/-!
# What receivers take over

The calls of a file are taken innermost first, and what is pending are edits that no receiver has
taken over so far.  Those that replace text are callees of calls that were taken, they lie apart from
one another, and every call that was taken is still inside one of them (`Tracks`).  A call either
takes such an edit over as a whole or leaves it alone, because its receiver contains the edit or lies
apart from it.

For one accepted read this means that a single edit of text covers it at any time, or none does.
While no receiver around it was taken, none does.  When one is taken, the read is replaced in the
receiver's text, and the callee covers it from then on; the receiver of a later call around it takes
that callee over, and with it the text in which the read is replaced already (`TakenOver`).
-/

namespace MethodLift

open MethodLift.Syntax

/-- The edits that replace text and cover a span with it. -/
def Edit.coverings (span : Span) (edits : List Edit) : List Edit :=
  edits.filter fun e => !e.span.isEmpty && e.span.contains span

namespace Edit

variable {span : Span} {edits : List Edit} {e : Edit}

lemma mem_coverings : e ∈ coverings span edits
    ↔ e ∈ edits ∧ e.span.isEmpty = false ∧ e.span.contains span = true := by
  rw [coverings, List.mem_filter, Bool.and_eq_true, Bool.not_eq_true']

lemma coverings_append (a b : List Edit) :
    coverings span (a ++ b) = coverings span a ++ coverings span b := List.filter_append ..

lemma coverings_cons_of_covers (nonempty : e.span.isEmpty = false)
    (covers : e.span.contains span = true) :
    coverings span (e :: edits) = e :: coverings span edits :=
  List.filter_cons_of_pos (by rw [nonempty, covers]; rfl)

/-- Insertions cover nothing. -/
lemma coverings_eq_nil_of_empty (span : Span) (h : ∀ e ∈ edits, e.span.isEmpty = true) :
    coverings span edits = [] := by
  refine List.filter_eq_nil_iff.2 fun e he => ?_
  rw [h e he]
  exact Bool.false_ne_true

/-- Edits that lie apart from a text do not cover it. -/
lemma coverings_eq_nil_of_apart (nonempty : span.start < span.stop)
    (h : ∀ e ∈ edits, e.span.Apart span) : coverings span edits = [] := by
  refine List.filter_eq_nil_iff.2 fun e he => ?_
  rw [(h e he).not_contains nonempty, Bool.and_false]
  exact Bool.false_ne_true

end Edit

namespace CallChanges

/-- The edit that puts the function's name in the place of a callee. -/
def calleeEdit (ctx : CallContext) (site : CallSite) : Edit :=
  ⟨site.file, site.func.span, ctx.functionName⟩

/-- The edits of a receiver: those that it takes over, and the reads in it that none of them has
taken over before. -/
def receiverEdits (file : String) (receiver : Span) (pending : List Edit)
    (reads : List ReplacedRead) : List Edit :=
  reads.foldl (foldRead file receiver)
    ((pending.filter fun e => receiver.contains e.span).map (within receiver.start))

variable {m : Module} {text : String} {ctx : CallContext} {reads : List ReplacedRead}
  {progress after : Progress} {site : CallSite} {receiver : Expr}

/-! ## One call -/

/-- What taking a call comes to, `written` being the text of the receiver after its edits. -/
structure Taking (m : Module) (text : String) (ctx : CallContext) (reads : List ReplacedRead)
    (progress : Progress) (site : CallSite) (receiver : Expr) (after : Progress)
    (written : String) (arguments : List String) : Prop where
  edited : ∃ normal, Edit.normalize (receiverEdits site.file receiver.span progress.pending reads)
      = .ok normal ∧ Edit.apply (Text.sliceString text receiver.span) normal = .ok written
  pending : after.pending = progress.pending.filter (fun e => !receiver.span.contains e.span)
    ++ calleeEdit ctx site :: argumentEdits text.toList site arguments
  kept : (shapeOf ctx.plan receiver ≠ .keptInTemporary
      ∧ after.temporaries = progress.temporaries ∧ after.taken = progress.taken
      ∧ arguments = (newArguments ctx site.args written).map (·.text))
    ∨ ∃ stmt name, shapeOf ctx.plan receiver = .keptInTemporary
      ∧ anchorOf m text.toList site = .ok stmt ∧ progress.taken.contains name = false
      ∧ after.temporaries = progress.temporaries ++ [⟨receiver.span.stop,
          temporaryLine site.file text.toList stmt.span.start name written⟩]
      ∧ after.taken = name :: progress.taken
      ∧ arguments = (newArguments ctx site.args name).map (·.text)

theorem step_ok (received : site.receiver = some receiver)
    (ok : step m text ctx reads progress site = .ok after) :
    refuseShadowed m ctx site = .ok () ∧ ∃ written arguments,
      Taking m text ctx reads progress site receiver after written arguments := by
  unfold step at ok
  rw [received] at ok
  obtain ⟨-, -, ok⟩ := bind_eq_ok.1 ok
  obtain ⟨⟨⟩, visible, ok⟩ := bind_eq_ok.1 ok
  refine ⟨visible, ?_⟩
  dsimp only at ok
  rw [List.partition_eq_filter_filter] at ok
  obtain ⟨written, edited, ok⟩ := bind_eq_ok.1 ok
  obtain ⟨normal, normalized, applied⟩ := bind_eq_ok.1 (liftEdit_eq_ok.1 edited)
  split at ok
  next kept =>
    obtain ⟨stmt, anchored, ok⟩ := bind_eq_ok.1 ok
    obtain rfl := Except.ok.inj ok
    have free : progress.taken.contains
        (freshName progress.taken.contains progress.taken.length ctx.temporaryName "") = false :=
      freshName_free (fun _ => List.contains_iff_mem.1) (Nat.le_refl _)
    exact ⟨written, _, ⟨normal, normalized, applied⟩, rfl,
      .inr ⟨stmt, _, eq_of_beq kept, anchored, free, rfl, rfl, rfl⟩⟩
  next other =>
    obtain rfl := Except.ok.inj ok
    exact ⟨written, _, ⟨normal, normalized, applied⟩, rfl,
      .inl ⟨fun same => other (beq_iff_eq.2 same), rfl, rfl, rfl⟩⟩

/-- New arguments, and the parentheses around a sole argument, are insertions. -/
lemma argumentEdits_empty (source : List Char) (site : CallSite) (arguments : List String) :
    ∀ e ∈ argumentEdits source site arguments, e.span.isEmpty = true := by
  intro e he
  obtain ⟨-, wraps | rfl⟩ := mem_argumentEdits he
  · obtain ⟨a, -, -, rfl | rfl⟩ := mem_parenthesize wraps
    · exact Span.isEmpty_point _
    · exact Span.isEmpty_point _
  · exact Span.isEmpty_point _

/-! ## What is pending -/

/-- Calls of one tree in an order in which they can be taken. -/
structure InOrder (m : Module) (sites : List CallSite) : Prop where
  stands : ∀ site ∈ sites, ∃ receiver, site.Stands m receiver
  order : sites.Pairwise fun a b => a.span.stop ≤ b.span.stop ∧ a.mark.serial ≠ b.mark.serial

lemma InOrder.of_append {a b : List CallSite} (h : InOrder m (a ++ b)) : InOrder m a :=
  ⟨fun site hs => h.stands site (List.mem_append_left _ hs), (List.pairwise_append.1 h.order).1⟩

/-- What the pending edits have to do with the calls that were taken. -/
structure Progress.Tracks (ctx : CallContext) (done : List CallSite) (progress : Progress) :
    Prop where
  callee : ∀ e ∈ progress.pending, e.span.isEmpty = false → ∃ a ∈ done, e = calleeEdit ctx a
  apart : progress.pending.Pairwise fun a b =>
    a.span.isEmpty = false → b.span.isEmpty = false → a.span.Apart b.span
  covered : ∀ a ∈ done, ∃ b ∈ done, calleeEdit ctx b ∈ progress.pending
    ∧ b.func.span.contains a.func.span = true

lemma innermostFirst_sorted (sites : List CallSite) :
    (innermostFirst sites).Pairwise fun a b => a.span.stop ≤ b.span.stop := by
  let le (a b : CallSite) : Bool :=
    a.span.stop < b.span.stop || (a.span.stop == b.span.stop && b.span.start ≤ a.span.start)
  have le_iff {a b : CallSite} : le a b = true ↔ a.span.stop < b.span.stop
      ∨ a.span.stop = b.span.stop ∧ b.span.start ≤ a.span.start := by
    simp only [le, Bool.or_eq_true, Bool.and_eq_true, decide_eq_true_eq, beq_iff_eq]
  have trans (a b c : CallSite) (hab : le a b = true) (hbc : le b c = true) : le a c = true := by
    rw [le_iff] at *
    omega
  have total (a b : CallSite) : (le a b || le b a) = true := by
    rw [Bool.or_eq_true, le_iff, le_iff]
    omega
  refine (List.pairwise_mergeSort trans total sites).imp fun order => ?_
  rcases le_iff.1 order with less | ⟨same, -⟩
  · exact less.le
  · exact same.le

/-- Some calls of a module are taken in an order in which they can be. -/
lemma inOrder_of_subperm {file member : String} {sites : List CallSite} (laid : m.Laid)
    (some : sites.Subperm (CallSite.ofModule file member m)) :
    InOrder m (innermostFirst sites) := by
  refine ⟨fun site hs =>
    (CallSite.ofModule_stands laid (some.subset (List.mem_mergeSort.1 hs))).2, ?_⟩
  obtain ⟨listed, same, sub⟩ := some
  have serials : ((innermostFirst sites).map (·.mark.serial)).Nodup :=
    (((List.mergeSort_perm _ _).trans same.symm).map _).nodup_iff.2
      ((CallSite.ofModule_serials laid).sublist (sub.map _))
  exact (innermostFirst_sorted _).and (List.pairwise_map.1 serials)

/-- All calls of a module. -/
lemma innermostFirst_inOrder (file member : String) (laid : m.Laid) :
    InOrder m (innermostFirst (CallSite.ofModule file member m)) :=
  inOrder_of_subperm laid (.refl _)

/-- A pending edit of text is taken over as a whole, or lies apart from the next callee. -/
lemma Progress.Tracks.inReceiver_or_apart {done : List CallSite} (laid : m.Laid)
    (h : progress.Tracks ctx done) (order : InOrder m (done ++ [site]))
    (stands : site.Stands m receiver) {e : Edit} (he : e ∈ progress.pending)
    (nonempty : e.span.isEmpty = false) :
    receiver.span.contains e.span = true ∨ e.span.Apart site.func.span := by
  obtain ⟨a, ha, rfl⟩ := h.callee e he nonempty
  obtain ⟨receiver', stands'⟩ := order.stands a (List.mem_append_left _ ha)
  obtain ⟨stop, other⟩ :=
    (List.pairwise_append.1 order.order).2.2 a ha site (List.mem_singleton.2 rfl)
  exact stands.callee_inReceiver_or_apart laid stands' other stop

/-- The next call keeps the relation. -/
theorem Progress.Tracks.step {done : List CallSite} (laid : m.Laid) (h : progress.Tracks ctx done)
    (order : InOrder m (done ++ [site]))
    (ok : step m text ctx reads progress site = .ok after) :
    after.Tracks ctx (done ++ [site]) := by
  obtain ⟨receiver, stands⟩ := order.stands site (List.mem_append_right _ (List.mem_singleton.2 rfl))
  obtain ⟨-, written, arguments, taking⟩ := step_ok stands.receiver ok
  have inserted := argumentEdits_empty text.toList site arguments
  have isLast : site ∈ done ++ [site] := List.mem_append_right _ (List.mem_singleton.2 rfl)
  refine ⟨?_, ?_, ?_⟩
  · intro e he nonempty
    rw [taking.pending] at he
    rcases List.mem_append.1 he with he | he
    · obtain ⟨a, ha, is⟩ := h.callee e (List.mem_filter.1 he).1 nonempty
      exact ⟨a, List.mem_append_left _ ha, is⟩
    rcases List.mem_cons.1 he with rfl | he
    · exact ⟨site, isLast, rfl⟩
    · rw [inserted e he] at nonempty
      nomatch nonempty
  · rw [taking.pending]
    refine List.pairwise_append.2 ⟨h.apart.filter _, List.pairwise_cons.2 ⟨?_, ?_⟩, ?_⟩
    · intro e he _ nonempty
      rw [inserted e he] at nonempty
      nomatch nonempty
    · refine List.pairwise_of_forall_mem_list fun e he _ _ nonempty => ?_
      rw [inserted e he] at nonempty
      nomatch nonempty
    · intro a ha b hb nonempty nonempty'
      rcases List.mem_cons.1 hb with rfl | hb
      · obtain ⟨pending, outside⟩ := List.mem_filter.1 ha
        refine (h.inReceiver_or_apart laid order stands pending nonempty).resolve_left ?_
        exact Bool.not_eq_true _ ▸ Bool.not_eq_true' _ ▸ outside
      · rw [inserted b hb] at nonempty'
        nomatch nonempty'
  · have last : calleeEdit ctx site ∈ after.pending := by
      rw [taking.pending]
      exact List.mem_append_right _ List.mem_cons_self
    intro a ha
    rcases List.mem_append.1 ha with ha | ha
    · obtain ⟨b, hb, pending, inside⟩ := h.covered a ha
      by_cases into : receiver.span.contains b.func.span = true
      · -- the edit around `a` moves with the receiver, which the new callee contains
        refine ⟨site, isLast, last, ?_⟩
        exact Span.contains_trans (stands.callee_contains_receiver laid)
          (Span.contains_trans into inside)
      · refine ⟨b, List.mem_append_left _ hb, ?_, inside⟩
        rw [taking.pending]
        refine List.mem_append_left _ (List.mem_filter.2 ⟨pending, ?_⟩)
        rw [Bool.not_eq_true']
        exact Bool.not_eq_true _ ▸ into
    · obtain rfl := List.mem_singleton.1 ha
      exact ⟨a, isLast, last, Span.contains_iff.2 ⟨Nat.le_refl _, Nat.le_refl _⟩⟩

/-- Before any call is taken, nothing is pending. -/
def start (text : String) (ctx : CallContext) : Progress := ⟨[], [], [], takenNames text ctx⟩

/-- Where nothing is called, nothing changes. -/
lemma ofSites_nil : ofSites m text [] ctx reads = .ok ⟨[], []⟩ := by
  rw [ofSites, innermostFirst, List.mergeSort_nil, List.foldlM_nil]
  show Except.ok _ = _
  rw [temporariesInOrder, List.mergeSort_nil, List.mergeSort_nil]
  rfl

/-- After some calls were taken. -/
theorem tracks_of_foldlM {done : List CallSite} (laid : m.Laid) (order : InOrder m done)
    (ran : done.foldlM (step m text ctx reads) (start text ctx) = .ok progress) :
    progress.Tracks ctx done := by
  induction done using List.reverseRecOn generalizing progress with
  | nil =>
    obtain rfl := Except.ok.inj ran
    exact ⟨nofun, .nil, nofun⟩
  | append_singleton done site ih =>
    obtain ⟨before, earlier, stepped⟩ := foldlM_concat_eq_ok.1 ran
    exact (ih order.of_append earlier).step laid order stepped

/-! ## One read -/

/-- The reads that are replaced: accesses to attributes that lie apart from one another. -/
structure Accepted (m : Module) (reads : List ReplacedRead) : Prop where
  access : ∀ r ∈ reads, ∃ n, Safety.IsAccess m n ∧ n.span = r.span
  apart : reads.Pairwise fun a b => a.span.Apart b.span

lemma Accepted.nonempty (laid : m.Laid) (h : Accepted m reads) {r : ReplacedRead} (hr : r ∈ reads) :
    r.span.start < r.span.stop := by
  obtain ⟨n, access, same⟩ := h.access r hr
  rw [← same]
  exact (laid.node access.mem).here.nonempty

/-- A read is inside the receiver of a call, or apart from the callee. -/
lemma Accepted.inReceiver_or_apart (laid : m.Laid) (h : Accepted m reads)
    (stands : site.Stands m receiver) {r : ReplacedRead} (hr : r ∈ reads) :
    receiver.span.contains r.span = true ∨ r.span.Apart site.func.span := by
  obtain ⟨n, access, same⟩ := h.access r hr
  rw [← same]
  exact stands.read_inReceiver_or_apart laid access

section Reads

variable {accepted : List AttributeRead} {c : ClassDef Stmt} {d : FunctionDef Stmt}
  (laid : m.Laid) (method : Scope.IsMethod m c d)
  (passed : Safety.Passed (Scope.analyze m (.functionDef d)) accepted)
  (same : (reads.map (·.span)).Perm (accepted.map (·.span)))
include laid method passed same

/-- A read that is replaced is an access in the method. -/
lemma exists_node_of_read {r : ReplacedRead} (hr : r ∈ reads) :
    ∃ n ∈ (Node.stmt (.functionDef d)).all, Safety.IsAccess m n ∧ n.span = r.span := by
  obtain ⟨a, ha, span⟩ := List.mem_map.1 (same.subset (List.mem_map_of_mem hr))
  obtain ⟨reference, isRead⟩ := passed.exists_reference ha
  obtain ⟨n, hn, access, at_, -⟩ := isRead.exists_access laid method
  exact ⟨n, hn, access, at_.trans span⟩

/-- The reads of a method that are replaced are accesses that lie apart. -/
lemma accepted_of_passed : Accepted m reads := by
  refine ⟨fun r hr => ?_, ?_⟩
  · obtain ⟨n, -, access, span⟩ := exists_node_of_read laid method passed same hr
    exact ⟨n, access, span⟩
  · exact List.pairwise_map.1 (((same.pairwise_iff Span.Apart.symm).2 (passed.apart laid method)))

end Reads

/-- The replacement of a read by its parameter. -/
def replacement (file : String) (r : ReplacedRead) : Edit := ⟨file, r.span, r.parameter⟩

section Fold

variable {file : String} {area : Span} {edits : List Edit} {r : ReplacedRead}

lemma foldRead_eq : foldRead file area edits r =
    if area.contains r.span = true
        ∧ Edit.coverings (within area.start (replacement file r)).span edits = [] then
      edits ++ [within area.start (replacement file r)]
    else edits := by
  have none : (!edits.any fun e => !e.span.isEmpty
      && e.span.contains (within area.start (replacement file r)).span) = true
      ↔ Edit.coverings (within area.start (replacement file r)).span edits = [] := by
    rw [Edit.coverings, List.filter_eq_nil_iff, Bool.not_eq_true', List.any_eq_false]
  exact if_congr ((Bool.and_eq_true ..).to_iff.trans (and_congr_right fun _ => none)) rfl rfl

/-- The edits of a receiver are taken over, or replace reads. -/
lemma mem_receiverEdits {file : String} {area : Span} {pending : List Edit} {e : Edit}
    (he : e ∈ receiverEdits file area pending reads) :
    (∃ x ∈ pending, area.contains x.span = true ∧ e = within area.start x)
    ∨ ∃ r ∈ reads, area.contains r.span = true
      ∧ e = within area.start (replacement file r) := by
  have added (rs : List ReplacedRead) (edits : List Edit)
      (he : e ∈ rs.foldl (foldRead file area) edits) : e ∈ edits
      ∨ ∃ r ∈ rs, area.contains r.span = true
        ∧ e = within area.start (replacement file r) := by
    induction rs generalizing edits with
    | nil => exact .inl he
    | cons r rs ih =>
      rcases ih _ he with known | ⟨x, hx, is⟩
      · rw [foldRead_eq] at known
        split at known
        next inside =>
          rcases List.mem_append.1 known with known | known
          · exact .inl known
          · exact .inr ⟨r, List.mem_cons_self, inside.1, List.mem_singleton.1 known⟩
        · exact .inl known
      · exact .inr ⟨x, List.mem_cons_of_mem _ hx, is⟩
  refine (added reads _ he).imp_left fun absorbed => ?_
  obtain ⟨x, hx, rfl⟩ := List.mem_map.1 absorbed
  exact ⟨x, (List.mem_filter.1 hx).1, (List.mem_filter.1 hx).2, rfl⟩

/-- Seen from a place in front of both, spans lie as they do. -/
lemma contains_within {e : Edit} (front : area.start ≤ e.span.start)
    (forward : e.span.start ≤ e.span.stop) (front' : area.start ≤ r.span.start)
    (forward' : r.span.start ≤ r.span.stop) :
    (within area.start e).span.contains (within area.start (replacement file r)).span
      = e.span.contains r.span := by
  rw [Bool.eq_iff_iff, Span.contains_iff, Span.contains_iff]
  change e.span.start - _ ≤ r.span.start - _ ∧ r.span.stop - _ ≤ e.span.stop - _ ↔ _
  omega

lemma isEmpty_within {e : Edit} (front : area.start ≤ e.span.start) :
    (within area.start e).span.isEmpty = e.span.isEmpty := by
  rw [Bool.eq_iff_iff, Span.isEmpty, Span.isEmpty, decide_eq_true_eq, decide_eq_true_eq]
  change e.span.stop - _ ≤ e.span.start - _ ↔ _
  omega

variable (inside : area.contains r.span = true) (nonempty : r.span.start < r.span.stop)
include inside nonempty

/-- Another read does not cover the read. -/
lemma coverings_foldRead_of_apart {other : ReplacedRead} (apart : other.span.Apart r.span) :
    Edit.coverings (within area.start (replacement file r)).span (foldRead file area edits other)
      = Edit.coverings (within area.start (replacement file r)).span edits := by
  rw [foldRead_eq]
  split
  next added =>
    have front := (Span.contains_iff.1 inside).1
    have runs : r.span.start - area.start < r.span.stop - area.start := by omega
    have alone : Edit.coverings (within area.start (replacement file r)).span
        [within area.start (replacement file other)] = [] := by
      refine Edit.coverings_eq_nil_of_apart runs (List.forall_mem_singleton.2 ?_)
      exact apart.imp (Nat.sub_le_sub_right · _) (Nat.sub_le_sub_right · _)
    rw [Edit.coverings_append, alone, List.append_nil]
  · rfl

/-- The read itself is added if nothing covers it. -/
lemma coverings_foldRead_self :
    Edit.coverings (within area.start (replacement file r)).span (foldRead file area edits r)
      = if Edit.coverings (within area.start (replacement file r)).span edits = [] then
          [within area.start (replacement file r)]
        else Edit.coverings (within area.start (replacement file r)).span edits := by
  have front := (Span.contains_iff.1 inside).1
  rw [foldRead_eq]
  split
  next added =>
    rw [if_pos added.2, Edit.coverings_append, added.2, List.nil_append,
      Edit.coverings_cons_of_covers]
    · rfl
    · rw [isEmpty_within front, Span.isEmpty_eq_false]
      exact nonempty
    · exact Span.contains_iff.2 ⟨Nat.le_refl _, Nat.le_refl _⟩
  next covered => rw [if_neg fun none => covered ⟨inside, none⟩]

/-- All reads are gone through, and one of them is the read. -/
lemma coverings_foldl (apart : reads.Pairwise fun a b => a.span.Apart b.span) (hr : r ∈ reads) :
    Edit.coverings (within area.start (replacement file r)).span
        (reads.foldl (foldRead file area) edits)
      = if Edit.coverings (within area.start (replacement file r)).span edits = [] then
          [within area.start (replacement file r)]
        else Edit.coverings (within area.start (replacement file r)).span edits := by
  have others (rs : List ReplacedRead) (apart : ∀ other ∈ rs, other.span.Apart r.span)
      (edits : List Edit) : Edit.coverings (within area.start (replacement file r)).span
        (rs.foldl (foldRead file area) edits)
      = Edit.coverings (within area.start (replacement file r)).span edits := by
    induction rs generalizing edits with
    | nil => rfl
    | cons other rs ih =>
      rw [List.foldl_cons, ih fun x hx => apart x (List.mem_cons_of_mem _ hx)]
      exact coverings_foldRead_of_apart inside nonempty (apart other List.mem_cons_self)
  obtain ⟨front, behind, rfl⟩ := List.append_of_mem hr
  obtain ⟨-, later, earlier⟩ := List.pairwise_append.1 apart
  rw [List.foldl_append, List.foldl_cons,
    others behind fun x hx => ((List.pairwise_cons.1 later).1 x hx).symm,
    coverings_foldRead_self inside nonempty,
    others front fun x hx => earlier x hx r List.mem_cons_self]

/-- In the text of a receiver, the read is covered by the edit that is taken over with it, or is
replaced. -/
theorem coverings_receiverEdits (file : String) {pending : List Edit}
    (apart : reads.Pairwise fun a b => a.span.Apart b.span) (hr : r ∈ reads)
    (moves : ∀ e ∈ Edit.coverings r.span pending, area.contains e.span = true) :
    Edit.coverings (within area.start (replacement file r)).span
        (receiverEdits file area pending reads)
      = if Edit.coverings r.span pending = [] then [within area.start (replacement file r)]
        else (Edit.coverings r.span pending).map (within area.start) := by
  have front := (Span.contains_iff.1 inside).1
  have absorbed : Edit.coverings (within area.start (replacement file r)).span
      ((pending.filter fun e => area.contains e.span).map (within area.start))
      = (Edit.coverings r.span pending).map (within area.start) := by
    rw [Edit.coverings, Edit.coverings, List.filter_map, List.filter_filter]
    congr 1
    refine List.filter_congr fun e he => ?_
    by_cases into : area.contains e.span = true
    · have start := (Span.contains_iff.1 into).1
      rw [Function.comp_apply, into, Bool.and_true, isEmpty_within start]
      by_cases empty : e.span.isEmpty = true
      · rw [empty, Bool.not_true, Bool.false_and, Bool.false_and]
      · have runs := Span.isEmpty_eq_false.1 (Bool.eq_false_iff.2 empty)
        rw [contains_within start runs.le front nonempty.le]
    · rw [Bool.eq_false_iff.2 into, Bool.and_false]
      refine (Bool.eq_false_iff.2 fun covers => into (moves e ?_)).symm
      exact List.mem_filter.2 ⟨he, covers⟩
  rw [receiverEdits, coverings_foldl inside nonempty apart hr, absorbed]
  simp only [List.map_eq_nil_iff]

end Fold

/-- The text of a call's receiver was computed with a read replaced in it: by its parameter, or in
the text of the receiver of an earlier call that moved there.  `before` are the calls that were taken
before this one. -/
inductive TakenOver (m : Module) (text : String) (ctx : CallContext) (reads : List ReplacedRead)
    (r : ReplacedRead) : List CallSite → CallSite → Prop
  | replaced {before : List CallSite} {site : CallSite} {receiver : Expr} {progress : Progress}
    (ran : before.foldlM (step m text ctx reads) (start text ctx) = .ok progress)
    (received : site.receiver = some receiver)
    (inside : receiver.span.contains r.span = true)
    (covered : Edit.coverings (within receiver.span.start (replacement site.file r)).span
        (receiverEdits site.file receiver.span progress.pending reads)
      = [within receiver.span.start (replacement site.file r)]) :
    TakenOver m text ctx reads r before site
  | carried {before between : List CallSite} {inner site : CallSite} {receiver : Expr}
    {progress : Progress}
    (ran : (before ++ inner :: between).foldlM (step m text ctx reads) (start text ctx)
      = .ok progress)
    (received : site.receiver = some receiver)
    (inside : receiver.span.contains r.span = true)
    (covered : Edit.coverings (within receiver.span.start (replacement site.file r)).span
        (receiverEdits site.file receiver.span progress.pending reads)
      = [within receiver.span.start (calleeEdit ctx inner)])
    (earlier : TakenOver m text ctx reads r before inner) :
    TakenOver m text ctx reads r (before ++ inner :: between) site

/-- After some calls were taken, no pending edit covers a read, and no receiver contains it; or the
callee of one call does, and the read was replaced in the text of that call's receiver. -/
theorem covered_of_foldlM {done : List CallSite} (laid : m.Laid) (order : InOrder m done)
    (accepted : Accepted m reads) {r : ReplacedRead} (hr : r ∈ reads)
    (ran : done.foldlM (step m text ctx reads) (start text ctx) = .ok progress) :
    Edit.coverings r.span progress.pending = []
    ∨ ∃ before site between, done = before ++ site :: between
      ∧ Edit.coverings r.span progress.pending = [calleeEdit ctx site]
      ∧ TakenOver m text ctx reads r before site := by
  induction done using List.reverseRecOn generalizing progress with
  | nil =>
    obtain rfl := Except.ok.inj ran
    exact .inl rfl
  | append_singleton done site ih =>
    obtain ⟨earlier, reached, stepped⟩ := foldlM_concat_eq_ok.1 ran
    have known := ih order.of_append reached
    have tracks := tracks_of_foldlM laid order.of_append reached
    have nonempty := accepted.nonempty laid hr
    obtain ⟨receiver, stands⟩ :=
      order.stands site (List.mem_append_right _ (List.mem_singleton.2 rfl))
    obtain ⟨-, written, arguments, taking⟩ := step_ok stands.receiver stepped
    have pending : Edit.coverings r.span progress.pending
        = (Edit.coverings r.span earlier.pending).filter (fun e => !receiver.span.contains e.span)
          ++ Edit.coverings r.span [calleeEdit ctx site] := by
      have inserted := Edit.coverings_eq_nil_of_empty r.span
        (argumentEdits_empty text.toList site arguments)
      rw [taking.pending, Edit.coverings_append, ← List.singleton_append, Edit.coverings_append,
        inserted, List.append_nil, Edit.coverings, Edit.coverings, Edit.coverings,
        List.filter_comm]
    rcases accepted.inReceiver_or_apart laid stands hr with inside | apart
    · -- the receiver contains the read, and so everything that covers it
      have moves : ∀ e ∈ Edit.coverings r.span earlier.pending,
          receiver.span.contains e.span = true := by
        intro e he
        obtain ⟨he, runs, covers⟩ := Edit.mem_coverings.1 he
        refine (tracks.inReceiver_or_apart laid order stands he runs).resolve_right fun apart => ?_
        have both := apart.symm.of_contains covers
        have callee := Span.contains_trans (stands.callee_contains_receiver laid) inside
        rw [both.not_contains nonempty] at callee
        nomatch callee
      have gone : (Edit.coverings r.span earlier.pending).filter
          (fun e => !receiver.span.contains e.span) = [] := by
        refine List.filter_eq_nil_iff.2 fun e he => ?_
        rw [moves e he]
        exact Bool.false_ne_true
      have callee : Edit.coverings r.span [calleeEdit ctx site] = [calleeEdit ctx site] :=
        Edit.coverings_cons_of_covers
          (Span.isEmpty_eq_false.2 (stands.callee_nonempty laid))
          (Span.contains_trans (stands.callee_contains_receiver laid) inside)
      rw [gone, callee] at pending
      have edits := coverings_receiverEdits inside nonempty site.file accepted.apart hr
        moves
      refine .inr ⟨done, site, [], rfl, pending, ?_⟩
      rcases known with none | ⟨before, inner, between, rfl, covered, inside'⟩
      · rw [if_pos none] at edits
        exact .replaced reached stands.receiver inside edits
      · rw [if_neg (by rw [covered]; exact List.cons_ne_nil _ _), covered] at edits
        exact .carried reached stands.receiver inside edits inside'
    · -- the call has nothing to do with the read
      have callee : Edit.coverings r.span [calleeEdit ctx site] = [] :=
        Edit.coverings_eq_nil_of_apart nonempty (List.forall_mem_singleton.2 apart.symm)
      have stay : (Edit.coverings r.span earlier.pending).filter
          (fun e => !receiver.span.contains e.span) = Edit.coverings r.span earlier.pending := by
        refine List.filter_eq_self.2 fun e he => ?_
        obtain ⟨-, -, covers⟩ := Edit.mem_coverings.1 he
        rw [Bool.not_eq_true', ← Bool.not_eq_true]
        intro into
        have callee := Span.contains_trans (stands.callee_contains_receiver laid)
          (Span.contains_trans into covers)
        rw [apart.symm.not_contains nonempty] at callee
        nomatch callee
      rw [stay, callee, List.append_nil] at pending
      rw [pending]
      rcases known with none | ⟨before, inner, between, rfl, covered, inside'⟩
      · exact .inl none
      · exact .inr ⟨before, inner, between ++ [site], by simp, covered, inside'⟩

end CallChanges

end MethodLift

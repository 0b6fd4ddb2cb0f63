import MethodLift.Proofs.Call.Absorbing

/-!
# Uses of a member

A call of an attribute names a member behind its receiver: there stand the dot and the name.  While
the calls of a file are taken one after the other, each of these places either lies apart from the
receiver that is written next, or an edit in that receiver covers it (`use_covered`).  In the end an
edit that writes the name of the function covers it (`exists_callee_edit`).
-/

namespace MethodLift

open MethodLift.Syntax

/-! ## Called uses -/

/-- What the callee of a call has behind its receiver, if an expression calls an attribute of a
name: the dot and the name. -/
def calledUse? (member : String) : Expr → Option Span
  | .call _ (.attr mark value name _) _ =>
    if name.name == member then some ⟨value.span.stop, mark.span.stop⟩ else none
  | _ => none

/-- Where a module names a member to call it. -/
def calledUses (member : String) (m : Module) : List Span := m.exprs.filterMap (calledUse? member)

namespace CallSite

/-- A call site calls the attribute that stands somewhere. -/
def Names (site : CallSite) (use : Span) : Prop :=
  ∃ receiver, site.receiver = some receiver ∧ use = ⟨receiver.span.stop, site.func.span.stop⟩

variable {m : Module} {site first : CallSite} {receiver receiver' : Expr} {use : Span}

lemma Stands.names (h : site.Stands m receiver) (names : site.Names use) :
    use = ⟨receiver.span.stop, site.func.span.stop⟩ := by
  obtain ⟨other, received, rfl⟩ := names
  rw [Option.some.inj (received.symm.trans h.receiver)]

lemma Stands.callee_contains_use (laid : m.Laid) (h : site.Stands m receiver)
    (names : site.Names use) : site.func.span.contains use = true := by
  have inside := Span.contains_iff.1 (h.callee_contains_receiver laid)
  have receives := Module.mem_nodes_of_mem_parts h.callee_mem h.receiver_mem_parts
  have forward : receiver.span.start ≤ receiver.span.stop := (laid.node receives).here.nonempty.le
  rw [h.names names, Span.contains_iff]
  exact ⟨inside.1.trans forward, Nat.le_refl _⟩

lemma exists_of_mem_calledUses (file : String) {member : String} (h : use ∈ calledUses member m) :
    ∃ site ∈ ofModule file member m, site.Names use := by
  obtain ⟨e, he, is⟩ := List.mem_filterMap.1 h
  unfold calledUse? at is
  split at is
  next mark mark' value name ctx args =>
    split at is
    next named =>
      obtain rfl := Option.some.inj is
      refine ⟨⟨file, mark, .attr mark' value name ctx, args, some value⟩, ?_, value, rfl, rfl⟩
      refine List.mem_mergeSort.2 (List.mem_filterMap.2 ⟨_, he, ?_⟩)
      exact if_pos named
    · nomatch is
  · nomatch is

end CallSite

/-! ## The calls around a use -/

namespace CallChanges

variable {m : Module} {text : String} {ctx : CallContext} {reads : List ReplacedRead}
  {progress : Progress} {site other : CallSite} {receiver : Expr} {use : Span}

/-- What a receiver takes over is among its edits. -/
lemma mem_receiverEdits_of_pending {file : String} {area : Span} {pending : List Edit} {e : Edit}
    (he : e ∈ pending) (inside : area.contains e.span = true) :
    within area.start e ∈ receiverEdits file area pending reads := by
  have kept (rs : List ReplacedRead) (edits : List Edit) :
      edits ⊆ rs.foldl (foldRead file area) edits := by
    induction rs generalizing edits with
    | nil => exact fun _ => id
    | cons r rs ih =>
      refine List.Subset.trans ?_ (ih _)
      rw [foldRead_eq]
      split
      · exact List.subset_append_left ..
      · exact fun _ => id
  exact kept _ _ (List.mem_map_of_mem (List.mem_filter.2 ⟨he, inside⟩))

/-- Where any call of a file names the member, a receiver has an edit, or nothing: the calls that
were taken left an edit there, and those that come later go on behind the receiver. -/
lemma use_covered {done later : List CallSite} (laid : m.Laid)
    (order : InOrder m (done ++ site :: later)) (tracks : progress.Tracks ctx done)
    (stands : site.Stands m receiver) (isOther : other ∈ done ++ site :: later)
    (names : other.Names use) :
    receiver.span.Apart use ∨ ∃ e ∈ receiverEdits site.file receiver.span progress.pending reads,
      (e.span.shift receiver.span.start).contains use = true := by
  obtain ⟨receiver', stands'⟩ := order.stands other isOther
  have ofCallee {span : Span} (apart : site.func.span.Apart span)
      (contains : span.contains use = true) : receiver.span.Apart use :=
    ((apart.of_contains contains).symm.of_contains (stands.callee_contains_receiver laid)).symm
  rcases List.mem_append.1 isOther with earlier | isOther
  · obtain ⟨b, hb, pending, covers⟩ := tracks.covered other earlier
    have covers := Span.contains_trans covers (stands'.callee_contains_use laid names)
    obtain ⟨receiver'', stands''⟩ := order.stands b (List.mem_append_left _ hb)
    obtain ⟨stop, different⟩ :=
      (List.pairwise_append.1 order.order).2.2 b hb site List.mem_cons_self
    rcases stands.callee_inReceiver_or_apart laid stands'' different stop with inside | apart
    · refine .inr ⟨_, mem_receiverEdits_of_pending pending inside, ?_⟩
      have start := (Span.contains_iff.1 inside).1
      rw [Span.contains_iff] at covers ⊢
      change b.func.span.start - receiver.span.start + receiver.span.start ≤ use.start
        ∧ use.stop ≤ b.func.span.stop - receiver.span.start + receiver.span.start
      omega
    · exact .inl (ofCallee apart.symm covers)
  rcases List.mem_cons.1 isOther with rfl | later'
  · rw [stands.names names]
    exact .inl (.inl (Nat.le_refl _))
  · obtain ⟨stop, different⟩ :=
      (List.pairwise_cons.1 (List.pairwise_append.1 order.order).2.1).1 other later'
    rcases stands'.callee_inReceiver_or_apart laid stands different stop with inside | apart
    · rw [stands'.names names]
      refine .inl (.inl ?_)
      exact (Span.contains_iff.1 (stands.callee_contains_receiver laid)).2.trans
        (Span.contains_iff.1 inside).2
    · exact .inl (ofCallee apart (stands'.callee_contains_use laid names))

variable {file member : String} {changed : CallChanges}

/-- Where a callee stands, an edit writes the name of the function. -/
lemma exists_edit_around (laid : m.Laid)
    (ok : ofSites m text (CallSite.ofModule file member m) ctx reads = .ok changed)
    (hs : other ∈ CallSite.ofModule file member m) :
    ∃ site ∈ CallSite.ofModule file member m, calleeEdit ctx site ∈ changed.edits
      ∧ site.func.span.isEmpty = false ∧ site.func.span.contains other.func.span = true := by
  obtain ⟨done, ran, ok⟩ := bind_eq_ok.1 ok
  obtain rfl := Except.ok.inj ok
  have order := innermostFirst_inOrder file member laid
  have tracks := tracks_of_foldlM laid order ran
  obtain ⟨b, hb, pending, inside⟩ := tracks.covered other (List.mem_mergeSort.2 hs)
  obtain ⟨-, receiver, stands⟩ := CallSite.ofModule_stands laid (List.mem_mergeSort.1 hb)
  exact ⟨b, List.mem_mergeSort.1 hb, List.mem_append_right _ pending,
    Span.isEmpty_eq_false.2 (stands.callee_nonempty laid), inside⟩

/-- Where a call names the member, an edit writes the name of the function. -/
theorem exists_callee_edit (laid : m.Laid)
    (ok : ofSites m text (CallSite.ofModule file member m) ctx reads = .ok changed)
    (isUse : use ∈ calledUses member m) :
    ∃ site ∈ CallSite.ofModule file member m, calleeEdit ctx site ∈ changed.edits
      ∧ site.func.span.isEmpty = false ∧ site.func.span.contains use = true := by
  obtain ⟨other, ho, names⟩ := CallSite.exists_of_mem_calledUses file isUse
  obtain ⟨-, receiver, stands⟩ := CallSite.ofModule_stands laid ho
  obtain ⟨site, hs, edited, replaces, around⟩ := exists_edit_around laid ok ho
  exact ⟨site, hs, edited, replaces,
    Span.contains_trans around (stands.callee_contains_use laid names)⟩

end CallChanges

end MethodLift

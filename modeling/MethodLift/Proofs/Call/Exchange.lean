import MethodLift.Proofs.Call.Uses
import MethodLift.Proofs.Edit.Exchange

/-!
# What calls become does not depend on what is replaced

When a receiver is written, each place of some kinds lies apart from it or inside one of its edits:
the places in a read that is replaced (`read_covered`), and those where a call names the member
(`use_covered`).  So the receiver has nothing of what stands there, and neither has anything else
that calls become.  With other characters at these places, but the same tree and the same names to
avoid, the calls become the same (`ofSites_exchange`).
-/

namespace MethodLift

open MethodLift.Syntax

namespace FirstFree

/-- What is free depends on which names are used, not on their order. -/
lemma congr {used used' : List String} {base name : String}
    (same : ∀ x, x ∈ used' ↔ x ∈ used) (h : FirstFree used base name) :
    FirstFree used' base name := by
  cases h with
  | itself free => exact .itself fun mem => free ((same _).1 mem)
  | suffixed taken positive free least =>
    exact .suffixed ((same _).2 taken) positive (fun mem => free ((same _).1 mem))
      fun k positive less => (same _).2 (least k positive less)

end FirstFree

namespace CallChanges

open Text (SameBut)

variable {m : Module} {text other : String} {ctx : CallContext} {reads : List ReplacedRead}
  {p p' after : Progress} {site : CallSite} {receiver : Expr} {places : List Span}

/-! ## Reads in a receiver -/

/-- Each read in a receiver is covered by an edit of it. -/
lemma exists_covers_read (file : String) (pending : List Edit) {area : Span} {r : ReplacedRead}
    (apart : reads.Pairwise fun a b => a.span.Apart b.span) (hr : r ∈ reads)
    (inside : area.contains r.span = true) (nonempty : r.span.start < r.span.stop) :
    ∃ e ∈ receiverEdits file area pending reads,
      (e.span.shift area.start).contains r.span = true := by
  have some : Edit.coverings (within area.start (replacement file r)).span
      (receiverEdits file area pending reads) ≠ [] := by
    rw [receiverEdits, coverings_foldl inside nonempty apart hr]
    split
    · exact List.cons_ne_nil _ _
    next covered => exact covered
  obtain ⟨e, he⟩ := List.exists_mem_of_ne_nil _ some
  obtain ⟨he, -, covers⟩ := Edit.mem_coverings.1 he
  refine ⟨e, he, Span.contains_iff.2 ?_⟩
  obtain ⟨start, stop⟩ := Span.contains_iff.1 covers
  change e.span.start ≤ r.span.start - area.start at start
  change r.span.stop - area.start ≤ e.span.stop at stop
  change e.span.start + area.start ≤ r.span.start ∧ r.span.stop ≤ e.span.stop + area.start
  have front := (Span.contains_iff.1 inside).1
  omega

/-- A place in a read lies apart from a receiver, or in one of its edits. -/
lemma read_covered (laid : m.Laid) (accepted : Accepted m reads) (stands : site.Stands m receiver)
    {pending : List Edit} {place : Span} {r : ReplacedRead} (hr : r ∈ reads)
    (around : r.span.contains place = true) :
    receiver.span.Apart place ∨ ∃ e ∈ receiverEdits site.file receiver.span pending reads,
      (e.span.shift receiver.span.start).contains place = true := by
  rcases accepted.inReceiver_or_apart laid stands hr with inside | apart
  · obtain ⟨e, he, covers⟩ := exists_covers_read site.file pending
      accepted.apart hr inside (accepted.nonempty laid hr)
    exact .inr ⟨e, he, Span.contains_trans covers around⟩
  · have callee := (apart.symm.of_contains around).symm
    exact .inl (callee.of_contains (stands.callee_contains_receiver laid)).symm

/-! ## What is read off the layout -/

section Layout

variable {a b : List Char} (same : List.Forall₂ Text.Alike a b)
include same

lemma anchorOf_congr (site : CallSite) : anchorOf m a site = anchorOf m b site := by
  simp only [anchorOf, CallSite.anchor, Text.startsLine_congr same]

lemma temporaryLine_congr (file : String) (offset : ℕ) (name written : String) :
    temporaryLine file a offset name written = temporaryLine file b offset name written := by
  rw [temporaryLine, temporaryLine, Text.lineStart_congr same, Text.indentation_congr same,
    Text.lineBreak_congr same]

lemma isBareGenerator_congr (e : Expr) : isBareGenerator a e = isBareGenerator b e := by
  cases e with
  | comprehension mark kind =>
    cases kind with
    | generator =>
      rw [isBareGenerator, isBareGenerator, bne, bne,
        Text.head?_congr (Text.dropBytes_congr same _) (by decide)]
    | _ => rfl
  | _ => rfl

lemma argumentEdits_congr (site : CallSite) (arguments : List String) :
    argumentEdits a site arguments = argumentEdits b site arguments := by
  have wraps : parenthesize site.file a site.args = parenthesize site.file b site.args := by
    unfold parenthesize
    split
    · rw [isBareGenerator_congr same]
    · rfl
  rw [argumentEdits, argumentEdits, wraps]

end Layout

/-! ## One call after the other -/

/-- A text with other characters at some places, in which the same names are to be avoided. -/
structure Exchanged (ctx : CallContext) (places : List Span) (text other : String) : Prop where
  same : SameBut places 0 text.toList other.toList
  names : ∀ name, name ∈ takenNames other ctx ↔ name ∈ takenNames text ctx

/-- The names to be avoided are the same if the same names occur. -/
lemma Exchanged.of_names (same : SameBut places 0 text.toList other.toList)
    (names : (((lex other).tokens.filter (·.kind == .name)).map (·.text)).eraseDups
      = (((lex text).tokens.filter (·.kind == .name)).map (·.text)).eraseDups) :
    Exchanged ctx places text other := by
  refine ⟨same, fun name => ?_⟩
  rw [takenNames, takenNames, List.mem_append, List.mem_append]
  refine or_congr_right ?_
  rw [← List.mem_eraseDups, names, List.mem_eraseDups]

/-- Two states that differ in the order of the names to avoid at most. -/
structure Progress.Same (p p' : Progress) : Prop where
  changes : p'.changes = p.changes
  temporaries : p'.temporaries = p.temporaries
  pending : p'.pending = p.pending
  taken : ∀ name, name ∈ p'.taken ↔ name ∈ p.taken

/-- A receiver is written the same. -/
lemma receiverText_exchange (same : SameBut places 0 text.toList other.toList)
    {file written : String} {area : Span} {pending : List Edit}
    (covered : ∀ place ∈ places, area.Apart place
      ∨ ∃ e ∈ receiverEdits file area pending reads,
        (e.span.shift area.start).contains place = true)
    (ok : receiverText file text area (pending.filter fun e => area.contains e.span) reads
      = .ok written) :
    receiverText file other area (pending.filter fun e => area.contains e.span) reads
      = .ok written := by
  obtain ⟨normal, normalized, applied⟩ := bind_eq_ok.1 ok
  exact bind_eq_ok.2 ⟨normal, normalized,
    Edit.apply_area_exchange same normalized applied covered⟩

/-- The next call becomes the same. -/
theorem Progress.Same.step (known : p.Same p')
    (same : SameBut places 0 text.toList other.toList) (received : site.receiver = some receiver)
    (covered : ∀ place ∈ places, receiver.span.Apart place
      ∨ ∃ e ∈ receiverEdits site.file receiver.span p.pending reads,
        (e.span.shift receiver.span.start).contains place = true)
    (ok : step m text ctx reads p site = .ok after) :
    ∃ after', step m other ctx reads p' site = .ok after' ∧ after.Same after' := by
  unfold CallChanges.step at ok ⊢
  rw [received] at ok ⊢
  obtain ⟨⟨⟩, possible, ok⟩ := bind_eq_ok.1 ok
  obtain ⟨⟨⟩, visible, ok⟩ := bind_eq_ok.1 ok
  dsimp only at ok ⊢
  rw [List.partition_eq_filter_filter] at ok ⊢
  obtain ⟨written, edited, ok⟩ := bind_eq_ok.1 ok
  have edited' := receiverText_exchange same covered (liftEdit_eq_ok.1 edited)
  have alike := same.alike
  have name : freshName p'.taken.contains p'.taken.length ctx.temporaryName ""
      = freshName p.taken.contains p.taken.length ctx.temporaryName "" :=
    ((firstFree_freshName p'.taken _).congr fun x => (known.taken x).symm).unique
      (firstFree_freshName p.taken _)
  rw [possible, visible, known.pending, liftEdit_eq_ok.2 edited']
  dsimp only [bind, Except.bind]
  split at ok
  next kept =>
    obtain ⟨stmt, anchored, ok⟩ := bind_eq_ok.1 ok
    obtain rfl := Except.ok.inj ok
    rw [anchorOf_congr alike] at anchored
    rw [if_pos kept, anchored, name, known.changes, known.temporaries, ← argumentEdits_congr alike]
    dsimp only
    rw [← temporaryLine_congr alike]
    refine ⟨_, rfl, rfl, rfl, rfl, fun x => ?_⟩
    rw [List.mem_cons, List.mem_cons, known.taken]
  next kept =>
    obtain rfl := Except.ok.inj ok
    rw [if_neg kept, known.changes, ← argumentEdits_congr alike]
    exact ⟨_, rfl, rfl, known.temporaries, rfl, known.taken⟩

variable {sites : List CallSite}

/-- Whether a place is replaced wherever it is copied to: it lies in a read that is replaced, or it
is where a call names the member. -/
def Replaced (reads : List ReplacedRead) (sites : List CallSite) (place : Span) : Prop :=
  (∃ r ∈ reads, r.span.contains place = true) ∨ ∃ site ∈ sites, site.Names place

/-- After some calls, the state is the same. -/
theorem foldlM_exchange {done later : List CallSite} (laid : m.Laid)
    (order : InOrder m (done ++ later)) (accepted : Accepted m reads)
    (replaced : ∀ place ∈ places, Replaced reads (done ++ later) place)
    (exchanged : Exchanged ctx places text other)
    (ran : done.foldlM (step m text ctx reads) (start text ctx) = .ok p) :
    ∃ p', done.foldlM (step m other ctx reads) (start other ctx) = .ok p' ∧ p.Same p' := by
  induction done using List.reverseRecOn generalizing later p with
  | nil =>
    obtain rfl := Except.ok.inj ran
    exact ⟨_, rfl, rfl, rfl, rfl, exchanged.names⟩
  | append_singleton done site ih =>
    rw [List.append_assoc, List.singleton_append] at order replaced
    obtain ⟨before, earlier, stepped⟩ := foldlM_concat_eq_ok.1 ran
    obtain ⟨before', earlier', known⟩ := ih order replaced earlier
    have tracks := tracks_of_foldlM laid order.of_append earlier
    obtain ⟨receiver, stands⟩ :=
      order.stands site (List.mem_append_right _ List.mem_cons_self)
    obtain ⟨p', stepped', is⟩ := known.step exchanged.same stands.receiver (fun place hp => by
      rcases replaced place hp with ⟨r, hr, around⟩ | ⟨use, isUse, names⟩
      · exact read_covered laid accepted stands hr around
      · exact use_covered laid order tracks stands isUse names) stepped
    exact ⟨p', foldlM_concat_eq_ok.2 ⟨before', earlier', stepped'⟩, is⟩

/-- The calls of a file become the same. -/
theorem ofSites_exchange {changed : CallChanges} (laid : m.Laid)
    (order : InOrder m (innermostFirst sites)) (accepted : Accepted m reads)
    (replaced : ∀ place ∈ places, Replaced reads sites place)
    (exchanged : Exchanged ctx places text other)
    (ok : ofSites m text sites ctx reads = .ok changed) :
    ofSites m other sites ctx reads = .ok changed := by
  obtain ⟨done, ran, ok⟩ := bind_eq_ok.1 ok
  obtain rfl := Except.ok.inj ok
  rw [← List.append_nil (innermostFirst sites)] at order
  have replaced' : ∀ place ∈ places, Replaced reads (innermostFirst sites ++ []) place := by
    intro place hp
    rw [List.append_nil]
    refine (replaced place hp).imp_right fun ⟨site, hs, names⟩ => ?_
    exact ⟨site, List.mem_mergeSort.2 hs, names⟩
  obtain ⟨done', ran', known⟩ := foldlM_exchange laid order accepted replaced' exchanged ran
  refine bind_eq_ok.2 ⟨done', ran', ?_⟩
  rw [known.changes, known.temporaries, known.pending]
  rfl

end CallChanges

end MethodLift

import MethodLift.Proofs.Call.Absorbing

/-!
# Receivers that are kept

A receiver that is needed more than once is kept in a temporary.  What this comes to is a `Hoisting`:
the call, its receiver, the statement before which the receiver is kept, the name of the temporary,
and the text that the temporary is assigned.  Taking a call adds one hoisting or none
(`step_cases`), and the calls of a file leave a list of them, from which all lines with temporaries
are made (`Kept`, `ofSites_kept`).

The names are allocated one after the other.  Each is the first candidate that is free, counted from
the name without a number, and what is free is decided by the names that were taken in the beginning
and by those that were allocated before (`Allocated`).
-/

namespace MethodLift

open MethodLift.Syntax

/-! ## Calls one after the other -/

/-- A receiver that is kept in a temporary. -/
structure Hoisting where
  site : CallSite
  receiver : Expr
  /-- The statement before which the receiver is kept. -/
  stmt : Stmt
  /-- The temporary. -/
  name : String
  /-- The text of the receiver after the changes in it. -/
  written : String

/-- The line that assigns the receiver to the temporary, and where the receiver ended. -/
def Hoisting.line (source : List Char) (h : Hoisting) : TemporaryEdit :=
  ⟨h.receiver.span.stop,
    CallChanges.temporaryLine h.site.file source h.stmt.span.start h.name h.written⟩

namespace CallChanges

variable {m : Module} {text : String} {ctx : CallContext} {reads : List ReplacedRead}
  {progress after : Progress} {site : CallSite} {receiver : Expr} {sites : List CallSite}

/-- A call was taken whose receiver is kept. -/
structure Hoists (m : Module) (text : String) (ctx : CallContext) (reads : List ReplacedRead)
    (progress : Progress) (h : Hoisting) (after : Progress) : Prop where
  received : h.site.receiver = some h.receiver
  shape : shapeOf ctx.plan h.receiver = .keptInTemporary
  anchored : anchorOf m text.toList h.site = .ok h.stmt
  first : FirstFree progress.taken ctx.temporaryName h.name
  edited : ∃ normal,
    Edit.normalize (receiverEdits h.site.file h.receiver.span progress.pending reads) = .ok normal
      ∧ Edit.apply (Text.sliceString text h.receiver.span) normal = .ok h.written
  changes : ∃ change : CallChange, after.changes = progress.changes ++ [change]
    ∧ change.span = h.site.span ∧ change.temporary = some h.name
  temporaries : after.temporaries = progress.temporaries ++ [h.line text.toList]
  pending : after.pending = progress.pending.filter (fun e => !h.receiver.span.contains e.span)
    ++ calleeEdit ctx h.site
      :: argumentEdits text.toList h.site ((newArguments ctx h.site.args h.name).map (·.text))
  taken : after.taken = h.name :: progress.taken

/-- A call was taken that needs no temporary. -/
structure Passes (progress after : Progress) : Prop where
  changes : ∃ change : CallChange, after.changes = progress.changes ++ [change]
    ∧ change.temporary = none
  temporaries : after.temporaries = progress.temporaries
  taken : after.taken = progress.taken

/-- Taking a call keeps its receiver in a temporary, or needs none. -/
theorem step_cases (ok : step m text ctx reads progress site = .ok after) :
    Passes progress after ∨ ∃ h : Hoisting, h.site = site ∧ Hoists m text ctx reads progress h after
    := by
  cases received : site.receiver with
  | none =>
    rw [step, received] at ok
    obtain rfl := Except.ok.inj ok
    exact .inl ⟨⟨_, rfl, rfl⟩, rfl, rfl⟩
  | some receiver =>
    rw [step, received] at ok
    obtain ⟨-, -, ok⟩ := bind_eq_ok.1 ok
    obtain ⟨⟨⟩, -, ok⟩ := bind_eq_ok.1 ok
    dsimp only at ok
    rw [List.partition_eq_filter_filter] at ok
    obtain ⟨written, edited, ok⟩ := bind_eq_ok.1 ok
    split at ok
    next kept =>
      obtain ⟨stmt, anchored, ok⟩ := bind_eq_ok.1 ok
      obtain rfl := Except.ok.inj ok
      refine .inr ⟨⟨site, receiver, stmt, _, written⟩, rfl, received, eq_of_beq kept, anchored,
        firstFree_freshName _ _, ?_, ⟨_, rfl, rfl, rfl⟩, rfl, rfl, rfl⟩
      obtain ⟨normal, normalized, applied⟩ := bind_eq_ok.1 (liftEdit_eq_ok.1 edited)
      exact ⟨normal, normalized, applied⟩
    · obtain rfl := Except.ok.inj ok
      exact .inl ⟨⟨_, rfl, rfl⟩, rfl, rfl⟩

/-- What is known of the receivers that are kept after some calls were taken: `hoistings` are in the
order in which their calls were. -/
structure Progress.Keeps (m : Module) (text : String) (ctx : CallContext) (done : List CallSite)
    (hoistings : List Hoisting) (progress : Progress) : Prop where
  sites : (hoistings.map (·.site)).Sublist done
  each : ∀ h ∈ hoistings, h.site.receiver = some h.receiver
    ∧ anchorOf m text.toList h.site = .ok h.stmt
  allocated : Allocated ctx.temporaryName (takenNames text ctx) (hoistings.map (·.name))
  changes : progress.changes.filterMap (·.temporary) = hoistings.map (·.name)
  temporaries : progress.temporaries = hoistings.map (·.line text.toList)
  taken : progress.taken = (hoistings.map (·.name)).reverse ++ takenNames text ctx

namespace Progress.Keeps

variable {done : List CallSite} {hoistings : List Hoisting}

/-- One call more that needs no temporary. -/
lemma pass (h : progress.Keeps m text ctx done hoistings) (passes : Passes progress after) :
    after.Keeps m text ctx (done ++ [site]) hoistings := by
  obtain ⟨⟨change, changes, none⟩, temporaries, taken⟩ := passes
  refine ⟨h.sites.trans (List.sublist_append_left _ _), h.each, h.allocated, ?_,
    temporaries.trans h.temporaries, taken.trans h.taken⟩
  rw [changes, List.filterMap_append, h.changes, List.filterMap_cons_none none, List.filterMap_nil,
    List.append_nil]

/-- One receiver more that is kept. -/
lemma hoist (h : progress.Keeps m text ctx done hoistings) {next : Hoisting}
    (hoists : Hoists m text ctx reads progress next after) :
    after.Keeps m text ctx (done ++ [next.site]) (hoistings ++ [next]) := by
  obtain ⟨change, changes, -, some⟩ := hoists.changes
  refine ⟨?_, ?_, ?_, ?_, ?_, ?_⟩
  · rw [List.map_append]
    exact h.sites.append (List.Sublist.refl _)
  · exact List.forall_mem_append.2
      ⟨h.each, List.forall_mem_singleton.2 ⟨hoists.received, hoists.anchored⟩⟩
  · rw [List.map_append]
    exact h.allocated.concat (h.taken ▸ hoists.first)
  · rw [changes, List.filterMap_append, h.changes, List.filterMap_cons_some some,
      List.filterMap_nil, List.map_append, List.map_singleton]
  · rw [hoists.temporaries, h.temporaries, List.map_append, List.map_singleton]
  · rw [hoists.taken, h.taken, List.map_append, List.reverse_append]
    rfl

end Progress.Keeps

/-- After some calls were taken. -/
theorem keeps_of_foldlM {done : List CallSite}
    (ran : done.foldlM (step m text ctx reads) (start text ctx) = .ok progress) :
    ∃ hoistings, progress.Keeps m text ctx done hoistings := by
  induction done using List.reverseRecOn generalizing progress with
  | nil =>
    obtain rfl := Except.ok.inj ran
    exact ⟨[], List.Sublist.refl _, nofun, .nil, rfl, rfl, rfl⟩
  | append_singleton done site ih =>
    obtain ⟨before, earlier, stepped⟩ := foldlM_concat_eq_ok.1 ran
    obtain ⟨hoistings, keeps⟩ := ih earlier
    rcases step_cases stepped with passes | ⟨next, rfl, hoists⟩
    · exact ⟨hoistings, keeps.pass passes⟩
    · exact ⟨hoistings ++ [next], keeps.hoist hoists⟩

/-! ## All calls of a file -/

/-- Whether the line of a temporary comes first. -/
def linesBefore (a b : TemporaryEdit) : Bool :=
  a.edit.span.start < b.edit.span.start
    || (a.edit.span.start == b.edit.span.start && a.receiverEnd ≤ b.receiverEnd)

lemma linesBefore_iff {a b : TemporaryEdit} : linesBefore a b = true
    ↔ a.edit.span.start < b.edit.span.start
      ∨ a.edit.span.start = b.edit.span.start ∧ a.receiverEnd ≤ b.receiverEnd := by
  simp only [linesBefore, Bool.or_eq_true, Bool.and_eq_true, decide_eq_true_eq, beq_iff_eq]

/-- What the calls of a file become, told by the receivers that are kept: `hoistings` in the order in
which the calls were taken, `lines` in the order of their lines. -/
structure Kept (m : Module) (text : String) (sites : List CallSite) (ctx : CallContext)
    (changed : CallChanges) (hoistings lines : List Hoisting) : Prop where
  perm : lines.Perm hoistings
  ordered : lines.Pairwise fun a b =>
    linesBefore (a.line text.toList) (b.line text.toList) = true
  sites : (hoistings.map (·.site)).Sublist (innermostFirst sites)
  each : ∀ h ∈ lines, h.site.receiver = some h.receiver
    ∧ anchorOf m text.toList h.site = .ok h.stmt
  allocated : Allocated ctx.temporaryName (takenNames text ctx) (hoistings.map (·.name))
  changes : (changed.changes.filterMap (·.temporary)).Perm (hoistings.map (·.name))
  edits : ∃ others, changed.edits = lines.map (fun h => (h.line text.toList).edit) ++ others

/-- What the calls of a file become once they were taken. -/
def Progress.result (done : Progress) : CallChanges where
  changes := done.changes.mergeSort fun a b => a.span.start ≤ b.span.start
  edits := (temporariesInOrder done.temporaries).map (·.edit) ++ done.pending

lemma ofSites_eq_ok {changed : CallChanges} : ofSites m text sites ctx reads = .ok changed
    ↔ ∃ done, (innermostFirst sites).foldlM (step m text ctx reads) (start text ctx) = .ok done
      ∧ changed = done.result := by
  constructor
  · intro ok
    obtain ⟨done, ran, ok⟩ := bind_eq_ok.1 ok
    exact ⟨done, ran, (Except.ok.inj ok).symm⟩
  · rintro ⟨done, ran, rfl⟩
    exact bind_eq_ok.2 ⟨done, ran, rfl⟩

/-- The lines with temporaries are those of the receivers that are kept. -/
theorem Progress.Keeps.kept {done : Progress} {hoistings : List Hoisting}
    (keeps : done.Keeps m text ctx (innermostFirst sites) hoistings) :
    ∃ lines, Kept m text sites ctx done.result hoistings lines
      ∧ done.result.edits = lines.map (fun h => (h.line text.toList).edit) ++ done.pending := by
  let le (a b : Hoisting) : Bool := linesBefore (a.line text.toList) (b.line text.toList)
  have perm : (hoistings.mergeSort le).Perm hoistings := List.mergeSort_perm _ _
  have trans (a b c : Hoisting) (hab : le a b = true) (hbc : le b c = true) : le a c = true := by
    simp only [le, linesBefore_iff] at *
    omega
  have total (a b : Hoisting) : (le a b || le b a) = true := by
    simp only [le, Bool.or_eq_true, linesBefore_iff]
    omega
  have edits : done.result.edits = (hoistings.mergeSort le).map (fun h => (h.line text.toList).edit)
      ++ done.pending := by
    have sorted : (hoistings.mergeSort le).map (·.line text.toList)
        = temporariesInOrder (hoistings.map (·.line text.toList)) :=
      List.map_mergeSort fun _ _ _ _ => rfl
    rw [Progress.result, keeps.temporaries, ← sorted, List.map_map]
    rfl
  refine ⟨hoistings.mergeSort le, ⟨perm, List.pairwise_mergeSort trans total _, keeps.sites,
    fun h mem => keeps.each h (perm.mem_iff.1 mem), keeps.allocated, ?_, done.pending, edits⟩, edits⟩
  rw [← keeps.changes]
  exact (List.mergeSort_perm _ _).filterMap _

theorem ofSites_kept {changed : CallChanges}
    (ok : ofSites m text sites ctx reads = .ok changed) :
    ∃ hoistings lines, Kept m text sites ctx changed hoistings lines := by
  obtain ⟨done, ran, rfl⟩ := ofSites_eq_ok.1 ok
  obtain ⟨hoistings, keeps⟩ := keeps_of_foldlM ran
  obtain ⟨lines, kept, -⟩ := keeps.kept
  exact ⟨hoistings, lines, kept⟩

end CallChanges

end MethodLift

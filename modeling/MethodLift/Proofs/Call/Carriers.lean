import MethodLift.Proofs.Call.Neighbours

/-!
# Where calls are written

What a call becomes is written at its place, as long as it is in no receiver of a call that is changed
later.  A receiver moves.  It is written again in the new arguments of its call, and so are the calls
in it (`WrittenIn`); or it goes to a line in front of a statement, and the calls in it with it
(`KeptIn`); or it is written nowhere, since there is no new parameter to write it for (`Gone`).

These are all possibilities (`Comes`, `carries_of_foldlM`).  Each edit that a call is written in belongs
to the call itself or to a call around it (`Carrier`).
-/

namespace MethodLift

open MethodLift.Syntax

namespace CallChanges

variable {m : Module} {text : String} {ctx : CallContext} {reads : List ReplacedRead}
  {progress after : Progress} {site around : CallSite} {receiver : Expr} {order done : List CallSite}
  {hoistings : List Hoisting} {e : Edit}

/-- The edit that puts arguments in behind those of a call. -/
def appendEdit (site : CallSite) (arguments : List String) : Edit :=
  .insert site.file site.place (appended site.args arguments)

/-- The edits that a call is written in, `order` being the order in which the calls of its file are
taken. -/
inductive WrittenIn (m : Module) (text : String) (ctx : CallContext) (reads : List ReplacedRead)
    (order : List CallSite) (site : CallSite) : Edit → Prop
  /-- What puts the name of the function in the place of the callee. -/
  | callee : WrittenIn m text ctx reads order site (calleeEdit ctx site)
  /-- What puts new arguments in that are made of a receiver in which the call is written. -/
  | argument {before behind : List CallSite} {around : CallSite} {receiver : Expr}
    {progress : Progress} {written : String} {e : Edit} (here : order = before ++ around :: behind)
    (received : Received m text ctx reads before progress around receiver written)
    (shape : shapeOf ctx.plan receiver ≠ .keptInTemporary) (some : ctx.plan ≠ [])
    (inner : WrittenIn m text ctx reads order site e) (pending : e ∈ progress.pending)
    (inside : receiver.span.contains e.span = true) :
    WrittenIn m text ctx reads order site
      (appendEdit around ((newArguments ctx around.args written).map (·.text)))

/-- A call is written in a receiver that is kept on a line in front of a statement. -/
structure KeptIn (m : Module) (text : String) (ctx : CallContext) (reads : List ReplacedRead)
    (order : List CallSite) (site : CallSite) (h : Hoisting) : Prop where
  taken : ∃ before behind progress, order = before ++ h.site :: behind
    ∧ Received m text ctx reads before progress h.site h.receiver h.written
    ∧ ∃ e ∈ progress.pending, WrittenIn m text ctx reads order site e
      ∧ h.receiver.span.contains e.span = true
  shape : shapeOf ctx.plan h.receiver = .keptInTemporary
  anchored : anchorOf m text.toList h.site = .ok h.stmt

/-- A call is in a receiver of which no attribute is needed. -/
def Gone (ctx : CallContext) (sites : List CallSite) (site : CallSite) : Prop :=
  ctx.plan = [] ∧ ∃ around ∈ sites, ∃ receiver, around.receiver = some receiver
    ∧ receiver.span.contains site.func.span = true

/-- The edit of a call, or an edit of a call around it that puts in new arguments. -/
inductive Carrier (ctx : CallContext) (done : List CallSite) (site : CallSite) (e : Edit) : Prop
  | callee (is : e = calleeEdit ctx site)
  | argument {around : CallSite} (mem : around ∈ done) (span : e.span = .point around.place)
    (inside : around.span.contains site.func.span = true)
    (behind : site.func.span.stop ≤ around.func.span.stop)

lemma Carrier.mono {done' : List CallSite} (h : Carrier ctx done site e) (sub : done ⊆ done') :
    Carrier ctx done' site e := by
  cases h with
  | callee is => exact .callee is
  | argument mem span inside behind => exact .argument (sub mem) span inside behind

/-- If a receiver takes an edit over that a call is written in, then the call is in the receiver. -/
lemma Carrier.inReceiver (h : Carrier ctx done site e) (laid : m.Laid)
    (framed : ∀ other ∈ done ++ [around], other.Framed) (inOrder : InOrder m (done ++ [around]))
    (stands : around.Stands m receiver) (taken : receiver.span.contains e.span = true) :
    receiver.span.contains site.func.span = true := by
  cases h with
  | callee is =>
    rw [is] at taken
    exact taken
  | @argument other mem span inside behind =>
    have mem' := List.mem_append_left [around] mem
    obtain ⟨receiver', stands'⟩ := inOrder.stands other mem'
    have stop :=
      ((List.pairwise_append.1 inOrder.order).2.2 other mem around (List.mem_singleton_self _)).1
    have changes : other.Changes e.span := .inr ⟨_, other.place_spec, span⟩
    have into := stands'.inReceiver_of_changes laid (framed other mem') stands
      (framed around (List.mem_append_right _ (List.mem_singleton_self _))) stop changes taken
    exact Span.contains_trans (stands.inReceiver laid into).1 inside

/-- Where a call is written among some edits and lines with temporaries. -/
inductive Comes (m : Module) (text : String) (ctx : CallContext) (reads : List ReplacedRead)
    (order done : List CallSite) (hoistings : List Hoisting) (edits : List Edit) (site : CallSite) :
    Prop
  | gone (gone : Gone ctx done site)
  | inEdit {e : Edit} (mem : e ∈ edits) (written : WrittenIn m text ctx reads order site e)
    (carrier : Carrier ctx done site e)
  | onLine {h : Hoisting} (mem : h ∈ hoistings) (kept : KeptIn m text ctx reads order site h)
    (inside : h.site.span.contains site.func.span = true)

/-- What is known after some calls were taken: where each of them is written. -/
def Progress.Carries (m : Module) (text : String) (ctx : CallContext) (reads : List ReplacedRead)
    (order done : List CallSite) (hoistings : List Hoisting) (progress : Progress) : Prop :=
  ∀ site ∈ done, Comes m text ctx reads order done hoistings progress.pending site

namespace Progress.Carries

variable {behind : List CallSite}

/-- What a call that is taken adds, for a call before it whose edit its receiver takes over: the new
arguments, if there are any, or the line of its temporary. -/
lemma taken_over (laid : m.Laid) (framed : ∀ other ∈ done ++ [around], other.Framed)
    (inOrder : InOrder m (done ++ [around])) (here : order = done ++ around :: behind)
    (ran : done.foldlM (step m text ctx reads) (start text ctx) = .ok progress)
    (stepped : step m text ctx reads progress around = .ok after)
    (outcome : Passes progress after ∨ ∃ h ∈ hoistings, h.site = around
      ∧ Hoists m text ctx reads progress h after)
    (stands : around.Stands m receiver) (mem : e ∈ progress.pending)
    (written : WrittenIn m text ctx reads order site e) (carrier : Carrier ctx done site e)
    (inside : receiver.span.contains e.span = true) :
    Comes m text ctx reads order (done ++ [around]) hoistings after.pending site := by
  have last : around ∈ done ++ [around] := List.mem_append_right _ (List.mem_singleton_self _)
  have inReceiver := carrier.inReceiver laid framed inOrder stands inside
  have inCallee := Span.contains_trans (stands.callee_contains_receiver laid) inReceiver
  have inCall : around.span.contains around.func.span = true :=
    Span.contains_iff.2 ((laid.node stands.call).here.inside (.read around.func) List.mem_cons_self)
  have within := Span.contains_trans inCall inCallee
  rcases outcome with passes | ⟨h, hh, rfl, hoists⟩
  · obtain ⟨-, text', arguments, taking⟩ := step_ok stands.receiver stepped
    rcases taking.kept with ⟨shape, -, -, rfl⟩ | ⟨_, _, -, -, -, more, -⟩
    · by_cases none : ctx.plan = []
      · exact .gone ⟨none, around, last, receiver, stands.receiver, inReceiver⟩
      · refine .inEdit ?_
          (.argument here ⟨ran, stands.receiver, taking.edited⟩ shape none written mem inside)
          (.argument last rfl within (Span.contains_iff.1 inCallee).2)
        have some : (newArguments ctx around.args text').map (·.text) ≠ [] := by
          rw [newArguments, List.map_map]
          exact fun empty => none (List.map_eq_nil_iff.1 empty)
        rw [taking.pending, argumentEdits_eq some]
        exact List.mem_append_right _ (List.mem_cons_of_mem _
          (List.mem_append_right _ (List.mem_singleton_self _)))
    · rw [passes.temporaries] at more
      nomatch List.self_eq_append_right.1 more
  · obtain rfl : receiver = h.receiver :=
      Option.some.inj (stands.receiver.symm.trans hoists.received)
    exact .onLine hh ⟨⟨done, behind, progress, here, ⟨ran, hoists.received, hoists.edited⟩,
      e, mem, written, inside⟩, hoists.shape, hoists.anchored⟩ within

/-- One call more, with its temporary if it has one. -/
lemma step {hoistings' : List Hoisting} (h : progress.Carries m text ctx reads order done hoistings)
    (laid : m.Laid) (framed : ∀ other ∈ done ++ [around], other.Framed)
    (inOrder : InOrder m (done ++ [around])) (here : order = done ++ around :: behind)
    (ran : done.foldlM (step m text ctx reads) (start text ctx) = .ok progress)
    (stepped : CallChanges.step m text ctx reads progress around = .ok after)
    (sub : hoistings ⊆ hoistings')
    (outcome : Passes progress after ∨ ∃ h ∈ hoistings', h.site = around
      ∧ Hoists m text ctx reads progress h after) :
    after.Carries m text ctx reads order (done ++ [around]) hoistings' := by
  obtain ⟨receiver, stands⟩ :=
    inOrder.stands around (List.mem_append_right _ (List.mem_singleton_self _))
  obtain ⟨-, written, arguments, taking⟩ := step_ok stands.receiver stepped
  have wider : done ⊆ done ++ [around] := List.subset_append_left _ _
  refine List.forall_mem_append.2 ⟨fun site hs => ?_, List.forall_mem_singleton.2 ?_⟩
  · cases h site hs with
    | gone gone =>
      obtain ⟨none, other, ho, inside⟩ := gone
      exact .gone ⟨none, other, wider ho, inside⟩
    | @inEdit e mem written carrier =>
      by_cases inside : receiver.span.contains e.span = true
      · exact taken_over laid framed inOrder here ran stepped outcome stands mem written carrier inside
      · refine .inEdit ?_ written (carrier.mono wider)
        rw [taking.pending]
        refine List.mem_append_left _ (List.mem_filter.2 ⟨mem, ?_⟩)
        rwa [Bool.not_eq_true', Bool.eq_false_iff]
    | onLine mem kept inside => exact .onLine (sub mem) kept inside
  · refine .inEdit ?_ .callee (.callee rfl)
    rw [taking.pending]
    exact List.mem_append_right _ List.mem_cons_self

end Progress.Carries

/-- After some calls were taken. -/
theorem carries_of_foldlM {behind : List CallSite} (laid : m.Laid)
    (framed : ∀ other ∈ done, other.Framed) (inOrder : InOrder m done)
    (here : order = done ++ behind)
    (ran : done.foldlM (step m text ctx reads) (start text ctx) = .ok progress) :
    ∃ hoistings, progress.Keeps m text ctx done hoistings
      ∧ progress.Carries m text ctx reads order done hoistings := by
  induction done using List.reverseRecOn generalizing progress behind with
  | nil =>
    obtain rfl := Except.ok.inj ran
    exact ⟨[], ⟨List.Sublist.refl _, nofun, .nil, rfl, rfl, rfl⟩, nofun⟩
  | append_singleton done around ih =>
    rw [List.append_assoc, List.singleton_append] at here
    obtain ⟨before, earlier, stepped⟩ := foldlM_concat_eq_ok.1 ran
    obtain ⟨hoistings, keeps, carries⟩ :=
      ih (fun other ho => framed other (List.mem_append_left _ ho)) inOrder.of_append here earlier
    rcases step_cases stepped with passes | ⟨next, rfl, hoists⟩
    · exact ⟨hoistings, keeps.pass passes, carries.step laid framed inOrder here earlier stepped
        (List.Subset.refl _) (.inl passes)⟩
    · exact ⟨hoistings ++ [next], keeps.hoist hoists, carries.step laid framed inOrder here earlier
        stepped (List.subset_append_left _ _)
        (.inr ⟨next, List.mem_append_right _ (List.mem_singleton_self _), rfl, hoists⟩)⟩

end CallChanges

end MethodLift

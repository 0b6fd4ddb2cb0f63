import MethodLift.Proofs.Call.Hoisting
import MethodLift.Proofs.Call.Neighbours

/-!
# Temporaries in the text of temporaries

The receiver of a call may have calls inside it, which are changed first.  What such a call becomes
mentions its own temporary, if it has one, and otherwise the text of its receiver, in which there may
be temporaries again.  So the text that a temporary is assigned is composed of the text of the file,
changed where calls stand in the receiver, and of the temporaries of such calls (`Composed`).

Only edits of calls in a receiver are taken over by the receiver: those of other calls lie elsewhere.
This is what keeps temporaries of arguments and neighbours out of it (`composes_of_foldlM`).
-/

namespace MethodLift

open MethodLift.Syntax

namespace CallSite

lemma node_mem_all (site : CallSite) : site.node ∈ site.node.all := Node.self_mem_all _

variable {m : Module} {site : CallSite} {receiver : Expr} {x : Node}

/-- What is inside the receiver is inside the call. -/
lemma Stands.mem_all (h : site.Stands m receiver) (hx : x ∈ (Node.read receiver).all) :
    x ∈ site.node.all := by
  have inFunc : x ∈ (Node.read site.func).all :=
    Node.mem_all.2 (.inr ⟨_, h.receiver_mem_parts, hx⟩)
  exact Node.mem_all.2 (.inr ⟨_, List.mem_cons_self, inFunc⟩)

end CallSite

namespace CallChanges

variable {m : Module} {text : String} {ctx : CallContext} {reads : List ReplacedRead}
  {progress after : Progress} {site : CallSite} {receiver : Expr} {sites done : List CallSite}
  {hoistings : List Hoisting} {known known' : Hoisting → Prop} {value : String}

/-- The text of a receiver after edits of calls in it.  `values` says which calls these are, and what
their new arguments are taken from. -/
structure Rewritten (m : Module) (text : String) (ctx : CallContext) (reads : List ReplacedRead)
    (values : CallSite → String → Prop) (site : CallSite) (receiver : Expr) (written : String) :
    Prop where
  stands : site.Stands m receiver
  inside : ∀ a value, values a value → a.node ∈ (Node.read receiver).all
  edited : ∃ edits normal,
    (∀ e ∈ edits, ∃ x, e = within receiver.span.start x
      ∧ ((∃ a value, values a value
          ∧ x ∈ ownEdits text ctx a ((newArguments ctx a.args value).map (·.text)))
        ∨ ∃ r ∈ reads, x = replacement site.file r))
    ∧ Edit.normalize edits = .ok normal
    ∧ Edit.apply (Text.sliceString text receiver.span) normal = .ok written

/-- What the new arguments of a call are taken from: its temporary, if that is `known`, or the text
of its receiver, in which calls are changed whose new arguments are taken from such texts. -/
inductive Composed (m : Module) (text : String) (ctx : CallContext) (reads : List ReplacedRead)
    (known : Hoisting → Prop) : CallSite → String → Prop
  | temporary {h : Hoisting} (is : known h) : Composed m text ctx reads known h.site h.name
  | written {values : CallSite → String → Prop} {site : CallSite} {receiver : Expr}
    {written : String} (rewritten : Rewritten m text ctx reads values site receiver written)
    (inner : ∀ a value, values a value → Composed m text ctx reads known a value) :
    Composed m text ctx reads known site written

namespace Composed

lemma mono (h : Composed m text ctx reads known site value) (sub : ∀ x, known x → known' x) :
    Composed m text ctx reads known' site value := by
  induction h with
  | temporary is => exact .temporary (sub _ is)
  | written rewritten _ ih => exact .written rewritten ih

/-- The temporaries are those of calls inside the call. -/
lemma inside (h : Composed m text ctx reads known site value) :
    Composed m text ctx reads (fun x => known x ∧ x.site.node ∈ site.node.all) site value := by
  induction h with
  | @temporary x is => exact .temporary ⟨is, x.site.node_mem_all⟩
  | written rewritten _ ih =>
    refine .written rewritten fun a value is => (ih a value is).mono fun x mentioned => ?_
    have inReceiver := rewritten.inside a value is
    exact ⟨mentioned.1, rewritten.stands.mem_all (Node.mem_all_trans inReceiver mentioned.2)⟩

end Composed

/-- What is known of the texts so far: what they are composed of. -/
structure Progress.Composes (m : Module) (text : String) (ctx : CallContext)
    (reads : List ReplacedRead) (done : List CallSite) (hoistings : List Hoisting)
    (progress : Progress) : Prop where
  pending : ∀ e ∈ progress.pending, ∃ a ∈ done, ∃ value,
    Composed m text ctx reads (· ∈ hoistings) a value
      ∧ e ∈ ownEdits text ctx a ((newArguments ctx a.args value).map (·.text))
  each : ∀ h ∈ hoistings, ∃ values,
    Rewritten m text ctx reads values h.site h.receiver h.written
      ∧ ∀ a value, values a value → Composed m text ctx reads (· ∈ hoistings) a value

namespace Progress.Composes

/-- The text of the next receiver. -/
lemma rewritten {written : String} (h : progress.Composes m text ctx reads done hoistings)
    (laid : m.Laid) (framed : ∀ a ∈ done ++ [site], a.Framed) (order : InOrder m (done ++ [site]))
    (stands : site.Stands m receiver)
    (edited : ∃ normal, Edit.normalize
        (receiverEdits site.file receiver.span progress.pending reads) = .ok normal
      ∧ Edit.apply (Text.sliceString text receiver.span) normal = .ok written) :
    ∃ values, Rewritten m text ctx reads values site receiver written
      ∧ ∀ a value, values a value → Composed m text ctx reads (· ∈ hoistings) a value := by
  obtain ⟨normal, normalized, applied⟩ := edited
  refine ⟨fun a value => a.node ∈ (Node.read receiver).all
      ∧ Composed m text ctx reads (· ∈ hoistings) a value,
    ⟨stands, fun _ _ => And.left, _, normal, fun e he => ?_, normalized, applied⟩,
    fun _ _ => And.right⟩
  rcases mem_receiverEdits he with ⟨x, hx, contains, rfl⟩ | ⟨r, hr, -, rfl⟩
  · obtain ⟨a, ha, value, composed, own⟩ := h.pending x hx
    refine ⟨x, rfl, .inl ⟨a, value, ⟨?_, composed⟩, own⟩⟩
    -- otherwise what the call changes would not be in the receiver
    have framed' := framed a (List.mem_append_left _ ha)
    obtain ⟨receiver', stands'⟩ := order.stands a (List.mem_append_left _ ha)
    have stop := ((List.pairwise_append.1 order.order).2.2 a ha site (List.mem_singleton_self _)).1
    exact stands'.inReceiver_of_changes laid framed' stands
      (framed site (List.mem_append_right _ (List.mem_singleton_self _))) stop
      (ownEdits_changes framed' text ctx _ x own) contains
  · exact ⟨_, rfl, .inr ⟨r, hr, rfl⟩⟩

/-- The pending edits after one call more. -/
lemma pending_step {hoistings' : List Hoisting} (h : progress.Composes m text ctx reads done hoistings)
    (sub : hoistings ⊆ hoistings') (composed : Composed m text ctx reads (· ∈ hoistings') site value) :
    ∀ e ∈ progress.pending.filter (fun e => !receiver.span.contains e.span)
        ++ ownEdits text ctx site ((newArguments ctx site.args value).map (·.text)),
      ∃ a ∈ done ++ [site], ∃ value, Composed m text ctx reads (· ∈ hoistings') a value
        ∧ e ∈ ownEdits text ctx a ((newArguments ctx a.args value).map (·.text)) := by
  refine List.forall_mem_append.2 ⟨fun e he => ?_, fun e he => ?_⟩
  · obtain ⟨a, ha, value, composed, own⟩ := h.pending e (List.mem_filter.1 he).1
    exact ⟨a, List.mem_append_left _ ha, value, composed.mono fun _ => (sub ·), own⟩
  · exact ⟨site, List.mem_append_right _ (List.mem_singleton_self _), value, composed, he⟩

/-- One call more that needs no temporary. -/
lemma pass (h : progress.Composes m text ctx reads done hoistings) (laid : m.Laid)
    (framed : ∀ a ∈ done ++ [site], a.Framed) (order : InOrder m (done ++ [site]))
    (ok : step m text ctx reads progress site = .ok after) (passes : Passes progress after) :
    after.Composes m text ctx reads (done ++ [site]) hoistings := by
  obtain ⟨receiver, stands⟩ :=
    order.stands site (List.mem_append_right _ (List.mem_singleton_self _))
  obtain ⟨-, written, arguments, taking⟩ := step_ok stands.receiver ok
  obtain ⟨values, rewritten, inner⟩ := h.rewritten laid framed order stands taking.edited
  refine ⟨?_, h.each⟩
  rcases taking.kept with ⟨-, -, -, rfl⟩ | ⟨_, _, -, -, -, more, -⟩
  · rw [taking.pending]
    exact h.pending_step (List.Subset.refl _) (.written rewritten inner)
  · rw [passes.temporaries] at more
    nomatch List.self_eq_append_right.1 more

/-- One receiver more that is kept. -/
lemma hoist (h : progress.Composes m text ctx reads done hoistings) (laid : m.Laid)
    {next : Hoisting} (framed : ∀ a ∈ done ++ [next.site], a.Framed)
    (order : InOrder m (done ++ [next.site]))
    (hoists : Hoists m text ctx reads progress next after) :
    after.Composes m text ctx reads (done ++ [next.site]) (hoistings ++ [next]) := by
  obtain ⟨receiver, stands⟩ :=
    order.stands next.site (List.mem_append_right _ (List.mem_singleton_self _))
  obtain rfl : receiver = next.receiver :=
    Option.some.inj (stands.receiver.symm.trans hoists.received)
  have sub : hoistings ⊆ hoistings ++ [next] := List.subset_append_left _ _
  have isLast : next ∈ hoistings ++ [next] := List.mem_append_right _ (List.mem_singleton_self _)
  refine ⟨?_, List.forall_mem_append.2 ⟨fun x hx => ?_, List.forall_mem_singleton.2 ?_⟩⟩
  · rw [hoists.pending]
    exact h.pending_step sub (.temporary isLast)
  · obtain ⟨values, rewritten, inner⟩ := h.each x hx
    exact ⟨values, rewritten, fun a value is => (inner a value is).mono fun _ => (sub ·)⟩
  · obtain ⟨values, rewritten, inner⟩ := h.rewritten laid framed order stands hoists.edited
    exact ⟨values, rewritten, fun a value is => (inner a value is).mono fun _ => (sub ·)⟩

end Progress.Composes

/-- After some calls were taken. -/
theorem composes_of_foldlM (laid : m.Laid) (framed : ∀ a ∈ done, a.Framed) (order : InOrder m done)
    (ran : done.foldlM (step m text ctx reads) (start text ctx) = .ok progress) :
    ∃ hoistings, progress.Keeps m text ctx done hoistings
      ∧ progress.Composes m text ctx reads done hoistings := by
  induction done using List.reverseRecOn generalizing progress with
  | nil =>
    obtain rfl := Except.ok.inj ran
    exact ⟨[], ⟨List.Sublist.refl _, nofun, .nil, rfl, rfl, rfl⟩, nofun, nofun⟩
  | append_singleton done site ih =>
    obtain ⟨before, earlier, stepped⟩ := foldlM_concat_eq_ok.1 ran
    obtain ⟨hoistings, keeps, composes⟩ :=
      ih (fun a ha => framed a (List.mem_append_left _ ha)) order.of_append earlier
    rcases step_cases stepped with passes | ⟨next, rfl, hoists⟩
    · exact ⟨hoistings, keeps.pass passes, composes.pass laid framed order stepped passes⟩
    · exact ⟨hoistings ++ [next], keeps.hoist hoists, composes.hoist laid framed order hoists⟩

end CallChanges

end MethodLift

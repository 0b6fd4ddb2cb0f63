import MethodLift.Proofs.Call.Received
import MethodLift.Proofs.Syntax.Parentheses
import MethodLift.Proofs.Text.Lines

/-!
# What the changes of other calls leave alone

A call is changed at its callee and at places between its callee and its end.  Seen from one call,
another call lies in front of it, behind it, in its receiver, or in one of its arguments, or it has
the call in its own receiver or in one of its own arguments.  Where neither is in the receiver of the
other, everything that the other call changes is in front of the callee, strictly inside the value of
one argument, or behind the call (`Elsewhere`).

A receiver moves with all that was changed in it.  So when all calls of a file have been taken, the
changes of a call that is in no other call's receiver are there as they were made, and everything
else is elsewhere (`Surrounded`).  And since what is elsewhere lies apart from what a call changes,
so do all edits of a file from one another (`edits_apart`).
-/

namespace MethodLift

open MethodLift.Syntax

namespace CallSite

/-! ## The parts of a call -/

/-- What the tokens of a call say of the places of its parts: the arguments stand behind the callee
and end before the call does, and so does a call without arguments. -/
structure Framed (site : CallSite) : Prop where
  callee : site.func.span.stop + 1 < site.span.stop
  value : ∀ a ∈ site.args, site.func.span.stop < a.value.span.start
    ∧ a.value.span.stop < site.span.stop
  stop : ∀ a ∈ site.args, a.span.stop = a.value.span.stop

/-- A place where text is put in when arguments are added to a call. -/
inductive Place (site : CallSite) : ℕ → Prop
  | front {a : Arg Expr} (sole : site.args = [a]) : Place site a.value.span.start
  | behind {a : Arg Expr} (last : site.args.getLast? = some a) : Place site a.span.stop
  | closing (none : site.args = []) : Place site (site.span.stop - 1)

/-- Text is put in where new arguments are, and in front of a sole argument. -/
lemma Place.cases {site : CallSite} {offset : ℕ} (h : site.Place offset) : offset = site.place
    ∨ ∃ a, site.args = [a] ∧ offset = a.value.span.start := by
  cases h with
  | front sole => exact .inr ⟨_, sole, rfl⟩
  | behind last =>
    left
    rw [place, last]
  | closing none =>
    left
    rw [place, none]
    rfl

lemma place_spec (site : CallSite) : site.Place site.place := by
  rw [place]
  split
  next last found => exact .behind found
  next none => exact .closing (List.getLast?_eq_none_iff.1 none)

/-- A sole argument ends where new ones are put. -/
lemma Framed.place_of_sole {site : CallSite} {a : Arg Expr} (h : site.Framed)
    (sole : site.args = [a]) : site.place = a.value.span.stop := by
  rw [CallSite.place, sole, ← h.stop a (sole ▸ List.mem_singleton_self a)]
  rfl

lemma Framed.place {site : CallSite} (h : site.Framed)
    (forward : ∀ a ∈ site.args, a.value.span.start < a.value.span.stop) {offset : ℕ}
    (place : site.Place offset) : site.func.span.stop < offset ∧ offset < site.span.stop := by
  cases place with
  | @front a sole =>
    have mem : a ∈ site.args := sole ▸ List.mem_singleton_self a
    have := h.value a mem
    have := forward a mem
    omega
  | @behind a last =>
    have mem := List.mem_of_getLast? last
    have := h.value a mem
    have := forward a mem
    have := h.stop a mem
    omega
  | closing =>
    have := h.callee
    omega

namespace Stands

variable {text : String} {site : CallSite} {receiver : Expr}

lemma mem_reachableExprs {m : Module} (h : site.Stands m receiver) :
    .call site.mark site.func site.args ∈ m.reachableExprs :=
  Module.filterMap_expr?_nodes.mem_iff.1 (List.mem_filterMap.2 ⟨_, h.call, rfl⟩)

lemma placed (h : site.Stands (parse text).module receiver) : site.Placed text.toList :=
  (parse_placed text).exprs _ (List.mem_mergeSort.2 (List.mem_append_left _ h.mem_reachableExprs))

/-- The calls of a text without problems are framed. -/
theorem framed (valid : (parse text).problems = []) (h : site.Stands (parse text).module receiver) :
    site.Framed := by
  obtain ⟨all, callee, inside, opening, closing, tokens⟩ := call_tokens valid h.mem_reachableExprs
  have formed := ((parse_laid valid).node h.call).here.formed _ rfl
  have := tokens.func_stop_le
  have := tokens.opening_stop
  have := tokens.opening_stop_le
  have := tokens.closing_stop
  have : closing.span.stop ≤ site.span.stop := tokens.within
  refine ⟨by omega, fun a ha => ?_, formed⟩
  have := tokens.value_between ha
  omega

end Stands

/-! ## Seen from another call -/

/-- A span in the value of an argument that is no point at its beginning and ends before it does. -/
def InArgument (site : CallSite) (span : Span) : Prop :=
  ∃ a ∈ site.args, a.value.span.start ≤ span.start ∧ a.value.span.start < span.stop
    ∧ span.stop < a.value.span.stop

/-- A span that lies in front of the callee of a call, strictly inside the value of one of its
arguments, or behind the call. -/
inductive Elsewhere (site : CallSite) (span : Span) : Prop
  | ahead (stop : span.stop ≤ site.func.span.start)
  | inArgument (inside : site.InArgument span)
  | beyond (start : site.span.stop ≤ span.start)

/-- What a call changes: its callee, and places behind it. -/
def Changes (site : CallSite) (span : Span) : Prop :=
  span = site.func.span ∨ ∃ offset, site.Place offset ∧ span = .point offset

/-- The node of the call. -/
def node (site : CallSite) : Node := .read (.call site.mark site.func site.args)

lemma node_ne {site other : CallSite} (different : site.mark.serial ≠ other.mark.serial) :
    site.node ≠ other.node :=
  fun same => different (congrArg Mark.serial (Expr.call.inj (Node.read.inj same)).1)

/-- A call that is in no receiver of some calls. -/
def Outermost (site : CallSite) (sites : List CallSite) : Prop :=
  ∀ other ∈ sites, ∀ receiver, other.receiver = some receiver → site.node ∉ (Node.read receiver).all

lemma value_mem_parts {site : CallSite} {a : Arg Expr} (ha : a ∈ site.args) :
    .read a.value ∈ site.node.parts :=
  List.mem_map_of_mem (List.mem_cons_of_mem _ (List.mem_map_of_mem ha))

namespace Stands

variable {m : Module} {site other : CallSite} {receiver receiver' : Expr} {span : Span}

/-- What is inside a call and neither the call itself nor its callee. -/
lemma inside_cases (h : site.Stands m receiver) {x : Node} (inside : x ∈ site.node.all)
    (notCall : x ≠ site.node) (notCallee : x ≠ .read site.func) :
    x ∈ (Node.read receiver).all ∨ ∃ a ∈ site.args, x ∈ (Node.read a.value).all := by
  rcases Node.mem_all.1 inside with same | ⟨c, hc, inside⟩
  · exact absurd same notCall
  rcases List.mem_cons.1 hc with rfl | hc
  · exact .inl (h.mem_receiver inside notCallee)
  · obtain ⟨value, hv, rfl⟩ := List.mem_map.1 hc
    obtain ⟨a, ha, rfl⟩ := List.mem_map.1 hv
    exact .inr ⟨a, ha, inside⟩

section

variable (laid : m.Laid) (h : site.Stands m receiver)
include laid h

lemma value_nonempty {a : Arg Expr} (ha : a ∈ site.args) :
    a.value.span.start < a.value.span.stop :=
  ((laid.node h.call).part (value_mem_parts ha)).here.nonempty

lemma start_le : site.span.start ≤ site.func.span.start :=
  ((laid.node h.call).here.inside (.read site.func) List.mem_cons_self).1

/-- The last argument ends last. -/
lemma value_stop_le {a b : Arg Expr} (ha : a ∈ site.args) (last : site.args.getLast? = some b) :
    a.value.span.stop ≤ b.value.span.stop := by
  obtain ⟨front, parts⟩ := List.getLast?_eq_some_iff.1 last
  have nonempty := h.value_nonempty laid (List.mem_of_getLast? last)
  have apart := (List.pairwise_cons.1 (laid.node h.call).here.apart).2
  change ((site.args.map (·.value)).map Node.read).Pairwise Node.Before at apart
  rw [parts, List.map_append, List.map_append] at apart
  rw [parts] at ha
  rcases List.mem_append.1 ha with ha | ha
  · have before := (List.pairwise_append.1 apart).2.2 _
      (List.mem_map_of_mem (List.mem_map_of_mem ha)) _ (List.mem_singleton.2 rfl)
    exact before.stop_le.trans nonempty.le
  · rw [List.mem_singleton.1 ha]

/-- A node in the receiver of a call lies in front of where the callee ends. -/
lemma inReceiver {x : Node} (inside : x ∈ (Node.read receiver).all) :
    receiver.span.contains x.span = true ∧ x.span.stop < site.func.span.stop := by
  have receives := (laid.node h.callee_mem).part h.receiver_mem_parts
  have contains := (receives.descendant inside).2
  exact ⟨Span.contains_iff.2 contains, contains.2.trans_lt (h.receiver_stop_lt laid)⟩

/-- A node in the value of an argument. -/
lemma inValue {a : Arg Expr} (ha : a ∈ site.args) {x : Node}
    (inside : x ∈ (Node.read a.value).all) :
    a.value.span.start ≤ x.span.start ∧ x.span.stop ≤ a.value.span.stop :=
  (((laid.node h.call).part (value_mem_parts ha)).descendant inside).2

/-- Two calls: one is inside the other, or they lie apart. -/
lemma related (h' : other.Stands m receiver') (distinct : site.node ≠ other.node) :
    (other.node ∈ (Node.read receiver).all ∨ ∃ a ∈ site.args, other.node ∈ (Node.read a.value).all)
    ∨ (site.node ∈ (Node.read receiver').all
      ∨ ∃ a ∈ other.args, site.node ∈ (Node.read a.value).all)
    ∨ site.span.stop ≤ other.span.start ∨ other.span.stop ≤ site.span.start := by
  have isCall (site other : CallSite) {receiver : Expr} (h : other.Stands m receiver) :
      site.node ≠ .read other.func := by
    obtain ⟨mark, name, ctx, callee⟩ := h.callee
    rw [callee]
    exact fun same => nomatch Node.read.inj same
  rcases laid.nested_or_apart h.call h'.call with (inside | inside) | apart
  · exact .inl (h.inside_cases inside distinct.symm (isCall other site h))
  · exact .inr (.inl (h'.inside_cases inside distinct (isCall site other h')))
  · exact .inr (.inr apart)

variable (framed : site.Framed)
include framed

/-- What a call changes lies in the call, behind where its callee begins. -/
lemma changes_inside (changes : site.Changes span) : site.func.span.start ≤ span.start
    ∧ site.func.span.start < span.stop ∧ span.start ≤ span.stop ∧ span.stop < site.span.stop := by
  have some := h.callee_nonempty laid
  rcases changes with rfl | ⟨offset, place, rfl⟩
  · have := framed.callee
    omega
  · have := framed.place (fun a ha => h.value_nonempty laid ha) place
    change site.func.span.start ≤ offset ∧ _ < offset ∧ offset ≤ offset ∧ offset < _
    omega

/-- What is elsewhere lies apart from what a call changes. -/
lemma apart {span' : Span} (elsewhere : site.Elsewhere span') (changes : site.Changes span) :
    span'.Apart span := by
  have inside := h.changes_inside laid framed changes
  cases elsewhere with
  | ahead stop => exact .inl (stop.trans inside.1)
  | beyond start => exact .inr (by omega)
  | inArgument within =>
    obtain ⟨a, ha, start, some, stop⟩ := within
    have value := framed.value a ha
    rcases changes with rfl | ⟨offset, place, rfl⟩
    · exact .inr (by omega)
    · cases place with
      | @front b sole =>
        obtain rfl : a = b := List.mem_singleton.1 (sole ▸ ha)
        exact .inr start
      | @behind b last =>
        have ends := h.value_stop_le laid ha last
        have same := framed.stop b (List.mem_of_getLast? last)
        exact .inl (by change _ ≤ b.span.stop; omega)
      | closing none =>
        rw [none] at ha
        nomatch ha

/-- Seen from a call in an argument, what the call around it changes is in front or behind. -/
lemma elsewhere_of_around (h' : other.Stands m receiver') {a : Arg Expr} (ha : a ∈ site.args)
    (inside : other.node ∈ (Node.read a.value).all) (changes : site.Changes span) :
    other.Elsewhere span := by
  obtain ⟨start, stop⟩ := h.inValue laid ha inside
  change a.value.span.start ≤ other.span.start at start
  change other.span.stop ≤ a.value.span.stop at stop
  have begins := h'.start_le laid
  have value := framed.value a ha
  rcases changes with rfl | ⟨offset, place, rfl⟩
  · exact .ahead (by omega)
  · cases place with
    | @front b sole =>
      obtain rfl : a = b := List.mem_singleton.1 (sole ▸ ha)
      exact .ahead (start.trans begins)
    | @behind b last =>
      have ends := h.value_stop_le laid ha last
      have same := framed.stop b (List.mem_of_getLast? last)
      exact .beyond (by change _ ≤ b.span.stop; omega)
    | closing none =>
      rw [none] at ha
      nomatch ha

/-- A call is not in the receiver of a call that ends no later. -/
lemma not_inReceiver (order : site.span.stop ≤ other.span.stop) :
    other.node ∉ (Node.read receiver).all := by
  intro inside
  have stop : other.span.stop < site.func.span.stop := (h.inReceiver laid inside).2
  have ends := framed.callee
  omega

/-- What a call changes is elsewhere, seen from another call, if neither is in the receiver of the
other one. -/
theorem elsewhere (h' : other.Stands m receiver')
    (different : site.mark.serial ≠ other.mark.serial)
    (outside : site.node ∉ (Node.read receiver').all)
    (outside' : other.node ∉ (Node.read receiver).all) (changes : site.Changes span) :
    other.Elsewhere span := by
  have inSite := h.changes_inside laid framed changes
  have begins := h.start_le laid
  have begins' := h'.start_le laid
  rcases h.related laid h' (node_ne different) with
    (into | ⟨a, ha, inside⟩) | (into | ⟨a, ha, inside⟩) | before | behind
  · exact absurd into outside'
  · exact h.elsewhere_of_around laid framed h' ha inside changes
  · exact absurd into outside
  · obtain ⟨start, stop⟩ := h'.inValue laid ha inside
    change a.value.span.start ≤ site.span.start at start
    change site.span.stop ≤ a.value.span.stop at stop
    exact .inArgument ⟨a, ha, by omega, by omega, by omega⟩
  · exact .ahead (by omega)
  · exact .beyond (by omega)

end

/-- A call that changes something in the receiver of a call that ends no earlier is in that
receiver. -/
theorem inReceiver_of_changes (laid : m.Laid) (h : site.Stands m receiver) (framed : site.Framed)
    (h' : other.Stands m receiver') (framed' : other.Framed)
    (order : site.span.stop ≤ other.span.stop) (changes : site.Changes span)
    (contains : receiver'.span.contains span = true) : site.node ∈ (Node.read receiver').all := by
  have inSite := h.changes_inside laid framed changes
  have begins := h.start_le laid
  have begins' := h'.start_le laid
  have shorter := h'.receiver_stop_lt laid
  have inCallee := Span.contains_iff.1 (h'.callee_contains_receiver laid)
  have ends' := framed'.callee
  rw [Span.contains_iff] at contains
  by_cases same : site.node = other.node
  · -- what is changed ends no earlier than the callee
    have sameFunc : site.func = other.func := (Expr.call.inj (Node.read.inj same)).2.1
    rcases changes with rfl | ⟨offset, place, rfl⟩
    · rw [sameFunc] at contains
      omega
    · have behind := (framed.place (fun a ha => h.value_nonempty laid ha) place).1
      rw [sameFunc] at behind
      change _ ≤ offset ∧ offset ≤ _ at contains
      omega
  rcases h.related laid h' same with
    (into | ⟨a, ha, inside⟩) | (into | ⟨a, ha, inside⟩) | before | after
  · exact absurd into (h.not_inReceiver laid framed order)
  · have stop : other.span.stop ≤ a.value.span.stop := (h.inValue laid ha inside).2
    have value := framed.value a ha
    omega
  · exact into
  · have start : a.value.span.start ≤ site.span.start := (h'.inValue laid ha inside).1
    have value := framed'.value a ha
    omega
  · omega
  · omega

/-- The receiver of a call that ends no earlier has nothing of what a call changes, unless the call
is in that receiver. -/
theorem changes_outside (laid : m.Laid) (h : site.Stands m receiver) (framed : site.Framed)
    (h' : other.Stands m receiver') (framed' : other.Framed)
    (order : site.span.stop ≤ other.span.stop)
    (outside : site.node ∉ (Node.read receiver').all) (changes : site.Changes span) :
    other.node ∉ (Node.read receiver).all ∧ receiver'.span.contains span = false :=
  ⟨h.not_inReceiver laid framed order, Bool.eq_false_iff.2 fun contains =>
    outside (h.inReceiver_of_changes laid framed h' framed' order changes contains)⟩

end Stands

/-- The call that ends last is in no receiver. -/
lemma outermost_of_last {site : CallSite} {file member text : String}
    (valid : (parse text).problems = [])
    (last : ∀ other ∈ ofModule file member (parse text).module,
      other.span.stop ≤ site.span.stop) :
    site.Outermost (ofModule file member (parse text).module) := by
  intro other ho receiver received
  have laid := parse_laid valid
  obtain ⟨-, receiver', stands⟩ := ofModule_stands laid ho
  obtain rfl := Option.some.inj (received.symm.trans stands.receiver)
  exact stands.not_inReceiver laid (stands.framed valid) (last other ho)

end CallSite

namespace CallChanges

open CallSite (Framed)

variable {m : Module} {text : String} {ctx : CallContext} {reads : List ReplacedRead}
  {progress after done : Progress} {site : CallSite} {receiver : Expr}

/-- What taking a call adds to the pending edits. -/
def ownEdits (text : String) (ctx : CallContext) (site : CallSite) (arguments : List String) :
    List Edit := calleeEdit ctx site :: argumentEdits text.toList site arguments

lemma argumentEdits_place (framed : site.Framed) (source : List Char) (arguments : List String) :
    ∀ e ∈ argumentEdits source site arguments, ∃ offset, site.Place offset
      ∧ e.span = .point offset := by
  intro e he
  obtain ⟨-, wraps | rfl⟩ := mem_argumentEdits he
  · obtain ⟨a, sole, -, rfl | rfl⟩ := mem_parenthesize wraps
    · exact ⟨_, .front sole, rfl⟩
    · exact ⟨_, site.place_spec, by rw [framed.place_of_sole sole]; rfl⟩
  · exact ⟨_, site.place_spec, rfl⟩

lemma ownEdits_changes (framed : site.Framed) (text : String) (ctx : CallContext)
    (arguments : List String) : ∀ e ∈ ownEdits text ctx site arguments, site.Changes e.span :=
  List.forall_mem_cons.2 ⟨.inl rfl, fun e he => .inr (argumentEdits_place framed _ _ e he)⟩

/-- Every pending edit was added by a call that was taken. -/
lemma exists_ownEdits {sites : List CallSite}
    (stands : ∀ site ∈ sites, ∃ receiver, site.Stands m receiver)
    (ran : sites.foldlM (step m text ctx reads) (start text ctx) = .ok done) :
    ∀ e ∈ done.pending, ∃ site ∈ sites, ∃ arguments, e ∈ ownEdits text ctx site arguments := by
  refine foldlM_invariant (P := fun p => ∀ e ∈ p.pending, ∃ site ∈ sites, ∃ arguments,
    e ∈ ownEdits text ctx site arguments) (List.forall_mem_nil _) ?_ ran
  intro progress site after hs h stepped
  obtain ⟨receiver, stands⟩ := stands site hs
  obtain ⟨-, written, arguments, taking⟩ := step_ok stands.receiver stepped
  rw [taking.pending]
  refine List.forall_mem_append.2 ⟨fun e he => h e (List.mem_filter.1 he).1, fun e he => ?_⟩
  exact ⟨site, hs, arguments, he⟩

/-- Edits that are, from the front to the back, those that a call added and others elsewhere. -/
def Surrounded (site : CallSite) (own edits : List Edit) : Prop :=
  ∃ front behind, edits = front ++ own ++ behind
    ∧ ∀ e ∈ front ++ behind, site.Elsewhere e.span

/-- Taking a later call leaves the edits of a call that is not in its receiver as they are. -/
lemma Surrounded.step {later : CallSite} {receiver' : Expr} {own : List Edit} (laid : m.Laid)
    (h : Surrounded site own progress.pending) (stands : site.Stands m receiver)
    (framed : site.Framed) (changes : ∀ e ∈ own, site.Changes e.span)
    (stands' : later.Stands m receiver') (framed' : later.Framed)
    (different : site.mark.serial ≠ later.mark.serial) (order : site.span.stop ≤ later.span.stop)
    (outside : site.node ∉ (Node.read receiver').all)
    (ok : step m text ctx reads progress later = .ok after) :
    Surrounded site own after.pending := by
  obtain ⟨front, behind, parts, others⟩ := h
  obtain ⟨-, written, arguments, taking⟩ := step_ok stands'.receiver ok
  have apart {span : Span} (changes : site.Changes span) :=
    stands.changes_outside laid framed stands' framed' order outside changes
  have kept : own.filter (fun e => !receiver'.span.contains e.span) = own := by
    refine List.filter_eq_self.2 fun e he => ?_
    rw [(apart (changes e he)).2]
    rfl
  refine ⟨front.filter (fun e => !receiver'.span.contains e.span),
    behind.filter (fun e => !receiver'.span.contains e.span)
      ++ ownEdits text ctx later arguments, ?_, ?_⟩
  · rw [taking.pending, parts, List.filter_append, List.filter_append, kept, List.append_assoc]
    rfl
  · intro e he
    rw [← List.append_assoc, ← List.filter_append] at he
    rcases List.mem_append.1 he with he | he
    · exact others e (List.mem_filter.1 he).1
    · exact stands'.elsewhere laid framed' stands different.symm (apart (.inl rfl)).1 outside
        (ownEdits_changes framed' _ _ _ e he)

/-- When a call is taken, the edits that its receiver does not take over are elsewhere. -/
lemma kept_elsewhere {done : List CallSite} (laid : m.Laid)
    (framed : ∀ other ∈ done ++ [site], other.Framed) (order : InOrder m (done ++ [site]))
    (stands : site.Stands m receiver)
    (ran : done.foldlM (step m text ctx reads) (start text ctx) = .ok progress) :
    ∀ e ∈ progress.pending.filter (fun e => !receiver.span.contains e.span),
      site.Elsewhere e.span := by
  intro e he
  obtain ⟨he, outside⟩ := List.mem_filter.1 he
  have stands' := order.of_append.stands
  obtain ⟨other, ho, arguments, he⟩ := exists_ownEdits stands' ran e he
  obtain ⟨receiver', others⟩ := stands' other ho
  have framed' := framed other (List.mem_append_left _ ho)
  obtain ⟨stop, different⟩ := (List.pairwise_append.1 order.order).2.2 other ho site
    (List.mem_singleton.2 rfl)
  have changes := ownEdits_changes framed' _ _ _ e he
  refine others.elsewhere laid framed' stands different (fun into => ?_)
    (others.not_inReceiver laid framed' stop) changes
  -- the receiver of the call has taken over what is inside it
  obtain ⟨contains, -⟩ := stands.inReceiver laid into
  have inside := others.changes_inside laid framed' changes
  have begins := others.start_le laid
  rw [Span.contains_iff] at contains
  change receiver.span.start ≤ other.span.start ∧ other.span.stop ≤ _ at contains
  rw [Bool.not_eq_true', ← Bool.not_eq_true, Span.contains_iff] at outside
  omega

/-- When all calls have been taken, the edits of a call that is in no other call's receiver are among
the pending ones as they were added, and all others are elsewhere. -/
theorem surrounded_of_foldlM {before behind : List CallSite} (laid : m.Laid)
    (framed : ∀ other ∈ before ++ site :: behind, other.Framed)
    (order : InOrder m (before ++ site :: behind))
    (outermost : ∀ other ∈ before ++ site :: behind, ∀ receiver, other.Stands m receiver →
      site.node ∉ (Node.read receiver).all)
    (ran : (before ++ site :: behind).foldlM (step m text ctx reads) (start text ctx)
      = .ok done) : ∃ value,
        Value m text ctx reads before site (done.temporaries.map (·.edit)) value
        ∧ Surrounded site (ownEdits text ctx site ((newArguments ctx site.args value).map (·.text)))
          done.pending := by
  have here : site ∈ before ++ site :: behind := List.mem_append_right _ List.mem_cons_self
  obtain ⟨receiver, stands⟩ := order.stands site here
  have framed' := framed site here
  have inOrder := (List.pairwise_append.1 order.order).2.1
  rw [List.foldlM_append] at ran
  obtain ⟨progress, reached, ran⟩ := bind_eq_ok.1 ran
  rw [List.foldlM_cons] at ran
  obtain ⟨taken, stepped, ran⟩ := bind_eq_ok.1 ran
  obtain ⟨-, written, arguments, taking⟩ := step_ok stands.receiver stepped
  obtain ⟨value, isValue, rfl⟩ := taking.exists_value reached stands.receiver
  refine ⟨value, isValue.mono (List.map_subset _ (temporaries_subset ran)),
    foldlM_invariant (P := fun p => Surrounded site _ p.pending) ?_ ?_ ran⟩
  · have sofar : before ++ [site] ⊆ before ++ site :: behind :=
      List.append_subset.2 ⟨List.subset_append_left .., List.cons_subset.2 ⟨here, List.nil_subset _⟩⟩
    rw [List.append_cons] at order
    have kept := kept_elsewhere laid (fun other ho => framed other (sofar ho)) order.of_append
      stands reached
    exact ⟨_, [], by rw [taking.pending, List.append_nil]; rfl, by rwa [List.append_nil]⟩
  · intro p later p' hl h stepped
    have listed : later ∈ before ++ site :: behind :=
      List.mem_append_right _ (List.mem_cons_of_mem _ hl)
    obtain ⟨receiver', stands'⟩ := order.stands later listed
    obtain ⟨stop, different⟩ := (List.pairwise_cons.1 inOrder).1 later hl
    exact h.step laid stands framed' (ownEdits_changes framed' _ _ _) stands'
      (framed later listed) different stop (outermost later listed receiver' stands') stepped

/-- A call begins no earlier than a statement before which a receiver is kept, or it ends in front of
the line of the statement. -/
lemma call_beside_anchor {other : CallSite} {stmt : Stmt} (valid : (parse text).problems = [])
    (stands : site.Stands (parse text).module receiver)
    (anchored : anchorOf (parse text).module text.toList other = .ok stmt) :
    stmt.span.start ≤ site.span.start
      ∨ site.span.stop ≤ Text.lineStart text.toList stmt.span.start := by
  have laid := parse_laid valid
  obtain ⟨mem, starts⟩ := anchorOf_ok anchored
  rcases laid.nested_or_apart (Module.stmt_mem_nodes.2 mem) stands.call with
    (inside | around) | before | behind
  · exact .inl ((laid.node (Module.stmt_mem_nodes.2 mem)).descendant inside).2.1
  · obtain ⟨e, isExpr⟩ := Node.exists_expr?_of_mem_all
      (Node.expr?_read (.call site.mark site.func site.args)) around
    nomatch isExpr
  · have nonempty : stmt.span.start < stmt.span.stop :=
      (laid.node (Module.stmt_mem_nodes.2 mem)).here.nonempty
    exact .inl (nonempty.le.trans before)
  · -- the closing parenthesis is not blank, so the statement's line begins behind it
    obtain ⟨all, callee, inside, opening, closing, tokens⟩ :=
      call_tokens valid stands.mem_reachableExprs
    obtain ⟨last, here, is, stops⟩ := tokens.last
    have stop : last.span.stop = last.span.start + 1 := tokens.stream.symbol_stop here is
    have mark := tokens.stream.slice_symbol here is
    have same : last.span = ⟨last.span.start, last.span.start + 1⟩ := by rw [← stop]
    rw [same] at mark
    have closes : last.span.start + 1 = site.span.stop := stop.symm.trans stops
    have cut := ((parse_sound text).1.stmts stmt mem).here.span.start
    right
    rw [← closes]
    exact cut.le_lineStart starts mark rfl (closes.trans_le behind)

/-- The line that a receiver is kept on begins in front of a call or behind it. -/
lemma elsewhere_of_anchor {other : CallSite} {stmt : Stmt} (valid : (parse text).problems = [])
    (stands : site.Stands (parse text).module receiver)
    (anchored : anchorOf (parse text).module text.toList other = .ok stmt) :
    site.Elsewhere (.point (Text.lineStart text.toList stmt.span.start)) := by
  rcases call_beside_anchor valid stands anchored with later | earlier
  · have line := Text.lineStart_le text.toList stmt.span.start
    exact .ahead (line.trans (later.trans (stands.start_le (parse_laid valid))))
  · exact .beyond earlier

/-- A place where no call changes anything. -/
def Untouched (m : Module) (offset : ℕ) : Prop :=
  ∀ (site : CallSite) (receiver : Expr), site.Stands m receiver → site.Elsewhere (.point offset)

/-- The lines that receivers are kept on begin where the line of a statement does. -/
lemma temporaries_anchored {sites : List CallSite}
    (order : ∀ other ∈ sites, ∃ receiver, other.Stands m receiver)
    (ran : sites.foldlM (step m text ctx reads) (start text ctx) = .ok done) :
    ∀ t ∈ done.temporaries, ∃ site stmt, anchorOf m text.toList site = .ok stmt
      ∧ t.edit.span = .point (Text.lineStart text.toList stmt.span.start) := by
  refine foldlM_invariant (P := fun p => ∀ t ∈ p.temporaries, ∃ site stmt,
    anchorOf m text.toList site = .ok stmt
      ∧ t.edit.span = .point (Text.lineStart text.toList stmt.span.start))
    (List.forall_mem_nil _) ?_ ran
  intro progress other after ho h stepped
  obtain ⟨receiver', stands'⟩ := order other ho
  obtain ⟨-, written, arguments, taking⟩ := step_ok stands'.receiver stepped
  rcases taking.kept with ⟨-, same, -⟩ | ⟨stmt, name, -, anchored, -, added, -⟩
  · rw [same]
    exact h
  · rw [added]
    exact List.forall_mem_append.2 ⟨h, List.forall_mem_singleton.2 ⟨other, stmt, anchored, rfl⟩⟩

/-- They begin where no call changes anything. -/
lemma temporaries_untouched {sites : List CallSite} (valid : (parse text).problems = [])
    (order : ∀ other ∈ sites, ∃ receiver, other.Stands (parse text).module receiver)
    (ran : sites.foldlM (step (parse text).module text ctx reads) (start text ctx) = .ok done) :
    ∀ t ∈ done.temporaries, ∃ offset, t.edit.span = .point offset
      ∧ Untouched (parse text).module offset := by
  intro t ht
  obtain ⟨other, stmt, anchored, span⟩ := temporaries_anchored order ran t ht
  exact ⟨_, span, fun site receiver stands => elsewhere_of_anchor valid stands anchored⟩

/-- Every edit of a file changes a call, or inserts a line where that of a statement begins. -/
lemma edits_placed {sites : List CallSite} {changed : CallChanges}
    (order : ∀ other ∈ innermostFirst sites, ∃ receiver, other.Stands (parse text).module receiver)
    (ok : ofSites (parse text).module text sites ctx reads = .ok changed) :
    ∀ e ∈ changed.edits, (∃ site receiver, site.Stands (parse text).module receiver
        ∧ ∃ arguments, e ∈ ownEdits text ctx site arguments)
      ∨ ∃ site stmt, anchorOf (parse text).module text.toList site = .ok stmt
        ∧ e.span = .point (Text.lineStart text.toList stmt.span.start) := by
  obtain ⟨done, ran, whole⟩ := bind_eq_ok.1 ok
  obtain rfl := Except.ok.inj whole
  refine List.forall_mem_append.2 ⟨fun e he => .inr ?_, fun e he => .inl ?_⟩
  · obtain ⟨t, ht, rfl⟩ := List.mem_map.1 he
    exact temporaries_anchored order ran t (List.mem_mergeSort.1 ht)
  · obtain ⟨site, hs, arguments, own⟩ := exists_ownEdits order ran e he
    obtain ⟨receiver, stands⟩ := order site hs
    exact ⟨site, receiver, stands, arguments, own⟩

/-- Edits that a call adds lie apart from one another. -/
lemma ownEdits_apart (laid : m.Laid) (stands : site.Stands m receiver) (framed : site.Framed)
    (text : String) (ctx : CallContext) (arguments : List String) :
    (ownEdits text ctx site arguments).Pairwise fun a b => a.span.Apart b.span := by
  have places := argumentEdits_place framed text.toList arguments
  refine List.pairwise_cons.2 ⟨fun e he => ?_, List.pairwise_of_forall_mem_list fun a ha b hb => ?_⟩
  · obtain ⟨offset, place, is⟩ := places e he
    have behind := framed.place (fun a ha => stands.value_nonempty laid ha) place
    rw [is]
    exact .inl behind.1.le
  · obtain ⟨offset, -, is⟩ := places a ha
    obtain ⟨offset', -, is'⟩ := places b hb
    rw [is, is']
    exact Nat.le_total offset offset'

/-- Pending edits lie apart from one another. -/
theorem pending_apart {done : List CallSite} (laid : m.Laid)
    (framed : ∀ site ∈ done, site.Framed) (order : InOrder m done)
    (ran : done.foldlM (step m text ctx reads) (start text ctx) = .ok progress) :
    progress.pending.Pairwise fun a b => a.span.Apart b.span := by
  induction done using List.reverseRecOn generalizing progress with
  | nil =>
    obtain rfl := Except.ok.inj ran
    exact .nil
  | append_singleton done site ih =>
    have last : site ∈ done ++ [site] := List.mem_append_right _ (List.mem_singleton.2 rfl)
    obtain ⟨receiver, stands⟩ := order.stands site last
    obtain ⟨before, earlier, stepped⟩ := foldlM_concat_eq_ok.1 ran
    obtain ⟨-, written, arguments, taking⟩ := step_ok stands.receiver stepped
    have apart := ih (fun other ho => framed other (List.mem_append_left _ ho)) order.of_append
      earlier
    rw [taking.pending]
    refine List.pairwise_append.2 ⟨apart.filter _,
      ownEdits_apart laid stands (framed site last) text ctx arguments, fun a ha b hb => ?_⟩
    exact stands.apart laid (framed site last) (kept_elsewhere laid framed order stands earlier a ha)
      (ownEdits_changes (framed site last) _ _ _ b hb)

/-- In the edits of a file, what is changed of a call that is in no other call's receiver is there as
it was added, and everything else is elsewhere. -/
theorem surrounded_of_ofSites {file member : String} {changed : CallChanges}
    (valid : (parse text).problems = [])
    (ok : ofSites (parse text).module text (CallSite.ofModule file member (parse text).module) ctx
      reads = .ok changed)
    (listed : site ∈ CallSite.ofModule file member (parse text).module)
    (outermost : site.Outermost (CallSite.ofModule file member (parse text).module)) :
    ∃ value, HasValue (parse text).module text ctx reads
        (CallSite.ofModule file member (parse text).module) changed site value
      ∧ Surrounded site (ownEdits text ctx site ((newArguments ctx site.args value).map (·.text)))
        changed.edits := by
  have laid := parse_laid valid
  have order := innermostFirst_inOrder file member laid
  have known {other : CallSite}
      (ho : other ∈ innermostFirst (CallSite.ofModule file member (parse text).module)) :
      other ∈ CallSite.ofModule file member (parse text).module := List.mem_mergeSort.1 ho
  obtain ⟨-, receiver, stands⟩ := CallSite.ofModule_stands laid listed
  obtain ⟨done, ran, whole⟩ := bind_eq_ok.1 ok
  obtain rfl := Except.ok.inj whole
  have lines := temporaries_untouched valid order.stands ran
  obtain ⟨before, behind, parts⟩ : ∃ before behind, innermostFirst
      (CallSite.ofModule file member (parse text).module) = before ++ site :: behind :=
    List.append_of_mem (List.mem_mergeSort.2 listed)
  rw [parts] at ran order known
  obtain ⟨value, isValue, front, back, pending, others⟩ := surrounded_of_foldlM laid
    (fun other ho => (order.stands other ho).elim fun _ stands => stands.framed valid) order
    (fun other ho receiver stands => outermost other (known ho) receiver stands.receiver) ran
  have inOrder : done.temporaries.map (·.edit)
      ⊆ (temporariesInOrder done.temporaries).map (·.edit) ++ done.pending :=
    List.subset_append_of_subset_left _ (List.map_subset _ (List.mergeSort_perm _ _).symm.subset)
  refine ⟨value, ⟨before, behind, parts, isValue.mono inOrder⟩,
    (temporariesInOrder done.temporaries).map (·.edit) ++ front, back, ?_, ?_⟩
  · change _ ++ done.pending = _
    rw [pending]
    simp only [List.append_assoc]
  · rw [List.append_assoc]
    refine List.forall_mem_append.2 ⟨fun e he => ?_, others⟩
    obtain ⟨t, ht, rfl⟩ := List.mem_map.1 he
    obtain ⟨offset, is, elsewhere⟩ := lines t (List.mem_mergeSort.1 ht)
    rw [is]
    exact elsewhere site receiver stands

/-- The edits of a file run forwards and lie apart. -/
theorem edits_apart {sites : List CallSite} {changed : CallChanges}
    (valid : (parse text).problems = [])
    (order : InOrder (parse text).module (innermostFirst sites))
    (ok : ofSites (parse text).module text sites ctx reads = .ok changed) :
    (∀ e ∈ changed.edits, e.span.start ≤ e.span.stop)
      ∧ changed.edits.Pairwise fun a b => a.span.Apart b.span := by
  have laid := parse_laid valid
  obtain ⟨done, ran, whole⟩ := bind_eq_ok.1 ok
  obtain rfl := Except.ok.inj whole
  have framed : ∀ site ∈ innermostFirst sites, site.Framed :=
    fun site hs => (order.stands site hs).elim fun _ stands => stands.framed valid
  have added := exists_ownEdits order.stands ran
  have lines {e : Edit} (he : e ∈ (temporariesInOrder done.temporaries).map (·.edit)) :
      ∃ offset, e.span = .point offset ∧ Untouched (parse text).module offset := by
    obtain ⟨t, ht, rfl⟩ := List.mem_map.1 he
    exact temporaries_untouched valid order.stands ran t (List.mem_mergeSort.1 ht)
  constructor
  · refine List.forall_mem_append.2 ⟨fun e he => ?_, fun e he => ?_⟩
    · obtain ⟨offset, is, -⟩ := lines he
      rw [is]
      exact Nat.le_refl offset
    · obtain ⟨site, hs, arguments, he⟩ := added e he
      obtain ⟨receiver, stands⟩ := order.stands site hs
      exact (stands.changes_inside laid (framed site hs)
        (ownEdits_changes (framed site hs) _ _ _ e he)).2.2.1
  · refine List.pairwise_append.2 ⟨List.pairwise_of_forall_mem_list fun a ha b hb => ?_,
      pending_apart laid framed order ran, fun a ha b hb => ?_⟩
    · obtain ⟨offset, is, -⟩ := lines ha
      obtain ⟨offset', is', -⟩ := lines hb
      rw [is, is']
      exact Nat.le_total offset offset'
    · obtain ⟨offset, is, elsewhere⟩ := lines ha
      obtain ⟨site, hs, arguments, hb⟩ := added b hb
      obtain ⟨receiver, stands⟩ := order.stands site hs
      rw [is]
      exact stands.apart laid (framed site hs) (elsewhere site receiver stands)
        (ownEdits_changes (framed site hs) _ _ _ b hb)

end CallChanges

end MethodLift

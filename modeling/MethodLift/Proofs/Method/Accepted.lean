import MethodLift.Proofs.Except
import MethodLift.Proofs.Scope.Methods
import MethodLift.Method.Safety

/-!
# Accepted reads

If a method passes the checks, nothing is left of its instance but the accepted reads: every name
that means the instance stands in one of them.  Each accepted read is an access to an attribute that
no call is made through, and the reads lie apart from one another.
-/

namespace MethodLift.Safety

open MethodLift.Syntax MethodLift.Scope

/-! ## What passing the checks means -/

lemma refuse_eq_ok {error : String → Span → SafetyError} {found : Option NameMention} :
    refuse error found = .ok () ↔ found = none := by
  cases found <;> simp [refuse]

/-- A fold whose steps keep a value that was found has one in the end. -/
lemma isSome_foldl {step : Option NameMention → NameMention → Option NameMention}
    (keeps : ∀ best r, (step (some best) r).isSome) (rs : List NameMention)
    {best? : Option NameMention} (found : best?.isSome) : (rs.foldl step best?).isSome := by
  induction rs generalizing best? with
  | nil => exact found
  | cons r rs ih =>
    obtain ⟨best, rfl⟩ := Option.isSome_iff_exists.1 found
    exact ih (keeps best r)

lemma first?_eq_none {analysis : Analysis} {kind : UsageReport → List NameMention} :
    first? analysis kind = none ↔ ∀ entry ∈ analysis.scopes, kind entry.2 = [] := by
  rw [← List.flatMap_eq_nil_iff, first?]
  generalize List.flatMap _ _ = mentions
  cases mentions with
  | nil => simp
  | cons r rs =>
    rw [List.foldl_cons]
    simp only [List.cons_ne_nil, iff_false]
    refine Option.isSome_iff_ne_none.1 (isSome_foldl (fun best r => ?_) rs rfl)
    dsimp only
    split <;> rfl

/-- A read of the instance that is accepted. -/
lemma acceptRead_ok {self : String} {read : InstanceRead} {accepted : AttributeRead}
    (h : acceptRead self read = .ok accepted) : ∃ member, read.member = some member
      ∧ read.shape = .attributeAccess ∧ isPrivate member.name = false
      ∧ accepted = ⟨member.name, read.access⟩ := by
  unfold acceptRead at h
  split at h
  · nomatch h
  next member isMember _ =>
    split at h
    · nomatch h
    next visible =>
    split at h
    · nomatch h
    next access => exact ⟨member, isMember, access, by simpa using visible, (Except.ok.inj h).symm⟩
    · nomatch h
  · nomatch h

lemma acceptReads_ok {self : String} {reads : List InstanceRead} {accepted : List AttributeRead}
    (h : acceptReads self reads = .ok accepted) :
    List.Forall₂ (fun read a => acceptRead self read = .ok a) reads accepted := by
  induction reads generalizing accepted with
  | nil =>
    obtain rfl := Except.ok.inj h
    exact .nil
  | cons read reads ih =>
    obtain ⟨a, first, h⟩ := bind_eq_ok.1 h
    obtain ⟨others, later, h⟩ := bind_eq_ok.1 h
    obtain rfl := Except.ok.inj h
    exact .cons first (ih later)

/-- What is done with one read is done with each. -/
lemma exists_of_mem_left {self : String} {reads : List InstanceRead}
    {accepted : List AttributeRead}
    (h : List.Forall₂ (fun read a => acceptRead self read = .ok a) reads accepted)
    {read : InstanceRead} (mem : read ∈ reads) :
    ∃ a ∈ accepted, acceptRead self read = .ok a := by
  induction h with
  | nil => nomatch mem
  | cons first _ ih =>
    rcases List.mem_cons.1 mem with rfl | mem
    · exact ⟨_, List.mem_cons_self, first⟩
    · obtain ⟨a, ha, is⟩ := ih mem
      exact ⟨a, List.mem_cons_of_mem _ ha, is⟩

lemma exists_of_mem_right {self : String} {reads : List InstanceRead}
    {accepted : List AttributeRead}
    (h : List.Forall₂ (fun read a => acceptRead self read = .ok a) reads accepted)
    {a : AttributeRead} (mem : a ∈ accepted) :
    ∃ read ∈ reads, acceptRead self read = .ok a := by
  induction h with
  | nil => nomatch mem
  | cons first _ ih =>
    rcases List.mem_cons.1 mem with rfl | mem
    · exact ⟨_, List.mem_cons_self, first⟩
    · obtain ⟨read, hr, is⟩ := ih mem
      exact ⟨read, List.mem_cons_of_mem _ hr, is⟩

lemma map_span_eq {self : String} {reads : List InstanceRead} {accepted : List AttributeRead}
    (h : List.Forall₂ (fun read a => acceptRead self read = .ok a) reads accepted) :
    accepted.map (·.span) = reads.map (·.access) := by
  induction h with
  | nil => rfl
  | cons first _ ih =>
    obtain ⟨member, -, -, -, rfl⟩ := acceptRead_ok first
    rw [List.map_cons, List.map_cons, ih]

/-- What a method that passes has in its reports. -/
structure Passed (analysis : Analysis) (reads : List AttributeRead) : Prop where
  nonlocalWrites : ∀ entry ∈ analysis.scopes, entry.2.nonlocalWrites = []
  nestedInstanceReads : ∀ entry ∈ analysis.scopes, entry.2.nestedInstanceReads = []
  outerReads : ∀ entry ∈ analysis.scopes, entry.2.outerReads = []
  instanceWrites : ∀ entry ∈ analysis.scopes, entry.2.instanceWrites = []
  accepted : List.Forall₂ (fun read a => acceptRead analysis.instanceName read = .ok a)
    (analysis.scopes.flatMap (·.2.instanceReads)) reads

theorem validate_ok {analysis : Analysis} {reads : List AttributeRead}
    (h : validate analysis = .ok reads) : Passed analysis reads := by
  obtain ⟨⟨⟩, nonlocalWrites, h⟩ := bind_eq_ok.1 h
  obtain ⟨⟨⟩, nestedInstanceReads, h⟩ := bind_eq_ok.1 h
  obtain ⟨⟨⟩, outerReads, h⟩ := bind_eq_ok.1 h
  obtain ⟨⟨⟩, instanceWrites, h⟩ := bind_eq_ok.1 h
  exact ⟨first?_eq_none.1 (refuse_eq_ok.1 nonlocalWrites),
    first?_eq_none.1 (refuse_eq_ok.1 nestedInstanceReads),
    first?_eq_none.1 (refuse_eq_ok.1 outerReads),
    first?_eq_none.1 (refuse_eq_ok.1 instanceWrites), acceptReads_ok h⟩

/-! ## The references of a method that passes -/

variable {m : Module} {c : ClassDef Stmt} {d : FunctionDef Stmt} {reads : List AttributeRead}

/-- The finding about a reference of a method. -/
def findingOf? (m : Module) (d : FunctionDef Stmt) (r : Reference) : Option Finding :=
  finding? (methodEvents m d) (.stmt d.mark.serial) (instanceName d) r

/-- The references of a method that something is found about. -/
def found (m : Module) (d : FunctionDef Stmt) : List (Reference × Finding) :=
  (references (methodEvents m d)).filterMap fun r => (findingOf? m d r).map (r, ·)

lemma analyze_eq : analyze m (.functionDef d) = {
    instanceName := instanceName d
    scopes := (openedScopes (methodEvents m d)).map fun (key, owner) =>
      (owner, reportOf (found m d) key)
    usedNames := usedNames (methodEvents m d) } := rfl

lemma mem_found {r : Reference} {f : Finding} :
    (r, f) ∈ found m d ↔ r ∈ references (methodEvents m d) ∧ findingOf? m d r = some f := by
  rw [found, List.mem_filterMap]
  constructor
  · rintro ⟨r', hr, is⟩
    obtain ⟨f', known, same⟩ := Option.map_eq_some_iff.1 is
    obtain ⟨rfl, rfl⟩ := Prod.mk.inj same
    exact ⟨hr, known⟩
  · rintro ⟨hr, is⟩
    exact ⟨r, hr, by rw [is]; rfl⟩

lemma ne_of_mentions_eq_nil {found : List (Reference × Finding)} {kind : Finding}
    (h : mentions found kind = []) : ∀ entry ∈ found, entry.2 ≠ kind := by
  rintro ⟨r, f⟩ mem rfl
  have listed : ⟨r.name, r.span⟩ ∈ mentions found f := by
    rw [mentions, List.mem_mergeSort, List.mem_filterMap]
    exact ⟨_, mem, if_pos (beq_self_eq_true f)⟩
  rw [h] at listed
  nomatch listed

lemma mem_instanceReads {found : List (Reference × Finding)} {read : InstanceRead} :
    read ∈ instanceReads found ↔ ∃ r, (r, .instanceRead read) ∈ found := by
  rw [instanceReads, List.mem_mergeSort, List.mem_filterMap]
  constructor
  · rintro ⟨⟨r, f⟩, mem, is⟩
    cases f with
    | instanceRead read' =>
      obtain rfl := Option.some.inj is
      exact ⟨r, mem⟩
    | _ => nomatch is
  · rintro ⟨r, mem⟩
    exact ⟨_, mem, rfl⟩

/-- What is found about a reference is in the report of a scope that opens. -/
lemma mem_report {r : Reference} {f : Finding} (mem : (r, f) ∈ found m d) :
    ∃ entry ∈ (analyze m (.functionDef d)).scopes, ∃ mine,
      entry.2 = { nonlocalWrites := mentions mine .nonlocalWrite
                  nestedInstanceReads := mentions mine .nestedInstanceRead
                  outerReads := mentions mine .outerRead
                  instanceWrites := mentions mine .instanceWrite
                  instanceReads := instanceReads mine } ∧ (r, f) ∈ mine := by
  have owned := references_owned r (mem_found.1 mem).1
  obtain ⟨⟨key, owner⟩, opened, same⟩ := List.mem_map.1 owned.report
  refine ⟨(owner, reportOf (found m d) key), ?_, _, rfl, ?_⟩
  · rw [analyze_eq]
    exact List.mem_map.2 ⟨_, opened, rfl⟩
  · exact List.mem_filter.2 ⟨mem, beq_iff_eq.2 same.symm⟩

/-- What a read of the instance is a reading of. -/
lemma of_finding_instanceRead {events : List Event} {method : ScopeKey} {self : String}
    {r : Reference} {read : InstanceRead}
    (h : finding? events method self r = some (.instanceRead read)) :
    r.frame.key = method ∧ (read = .bare r.span ∨ (read = .ofReference r
      ∧ resolve events r.name r.frame.chain = some method ∧ r.name = self)) := by
  unfold finding? at h
  split at h
  next scope _ resolved =>
    split at h
    next means =>
      rw [Bool.and_eq_true, beq_iff_eq, beq_iff_eq] at means
      split at h
      next here =>
        obtain rfl := Finding.instanceRead.inj (Option.some.inj h)
        exact ⟨beq_iff_eq.1 here, .inr ⟨rfl, means.1 ▸ resolved, means.2⟩⟩
      · nomatch Option.some.inj h
    split at h
    · nomatch Option.some.inj h
    · nomatch h
  · split at h
    · split at h
      next here =>
        obtain rfl := Finding.instanceRead.inj (Option.some.inj h)
        exact ⟨beq_iff_eq.1 here, .inl rfl⟩
      · nomatch Option.some.inj h
    · nomatch h
  · split at h
    · nomatch Option.some.inj h
    split at h
    · nomatch Option.some.inj h
    · nomatch h
  · nomatch h

/-- A reference that reads a public attribute of the instance in the method's own scope. -/
structure IsRead (m : Module) (d : FunctionDef Stmt) (r : Reference) (a : AttributeRead) :
    Prop where
  mem : r ∈ references (methodEvents m d)
  resolved : resolve (methodEvents m d) r.name r.frame.chain = some (.stmt d.mark.serial)
  named : r.name = instanceName d
  here : r.frame.key = .stmt d.mark.serial
  used : ∃ ident, ident.name = a.member ∧ r.use = .object ident .load a.span false
  visible : isPrivate a.member = false

/-- A read that is accepted is one. -/
lemma isRead_of_accepted {r : Reference} {read : InstanceRead} {self : String} {a : AttributeRead}
    (mem : (r, .instanceRead read) ∈ found m d) (accepted : acceptRead self read = .ok a) :
    read = .ofReference r ∧ IsRead m d r a := by
  obtain ⟨member, isMember, isShape, visible, rfl⟩ := acceptRead_ok accepted
  obtain ⟨referenced, is⟩ := mem_found.1 mem
  obtain ⟨here, rfl | ⟨rfl, resolved, named⟩⟩ := of_finding_instanceRead is
  · nomatch isMember
  refine ⟨rfl, referenced, resolved, named, here, ?_, visible⟩
  unfold InstanceRead.ofReference at isMember isShape ⊢
  split at isMember
  next ident ctx access called used =>
    simp only [used] at isShape ⊢
    obtain rfl := Option.some.inj isMember
    split at isShape
    · nomatch isShape
    next loads =>
    obtain rfl : ctx = .load := by simpa using loads
    split at isShape
    · nomatch isShape
    next notCalled =>
    obtain rfl : called = false := by simpa using notCalled
    exact ⟨ident, rfl, rfl⟩
  · nomatch isMember

namespace Passed

variable (h : Passed (analyze m (.functionDef d)) reads)
include h

/-- Of a method that passes, only such reads are found. -/
theorem finding {r : Reference} {f : Finding} (mem : (r, f) ∈ found m d) :
    ∃ a ∈ reads, IsRead m d r a ∧ f = .instanceRead (.ofReference r) := by
  obtain ⟨entry, listed, mine, report, mem'⟩ := mem_report mem
  have nonlocalWrites := h.nonlocalWrites entry listed
  have nestedInstanceReads := h.nestedInstanceReads entry listed
  have outerReads := h.outerReads entry listed
  have instanceWrites := h.instanceWrites entry listed
  rw [report] at nonlocalWrites nestedInstanceReads outerReads instanceWrites
  cases f with
  | nonlocalWrite => exact absurd rfl (ne_of_mentions_eq_nil nonlocalWrites _ mem')
  | nestedInstanceRead => exact absurd rfl (ne_of_mentions_eq_nil nestedInstanceReads _ mem')
  | outerRead => exact absurd rfl (ne_of_mentions_eq_nil outerReads _ mem')
  | instanceWrite => exact absurd rfl (ne_of_mentions_eq_nil instanceWrites _ mem')
  | instanceRead read =>
    have collected : read ∈ (analyze m (.functionDef d)).scopes.flatMap (·.2.instanceReads) := by
      refine List.mem_flatMap.2 ⟨entry, listed, ?_⟩
      rw [report]
      exact mem_instanceReads.2 ⟨r, mem'⟩
    obtain ⟨a, ha, accepted⟩ := exists_of_mem_left h.accepted collected
    obtain ⟨rfl, isRead⟩ := isRead_of_accepted mem accepted
    exact ⟨a, ha, isRead, rfl⟩

/-- Every name that means the instance is in an accepted read. -/
theorem isRead {r : Reference} (hr : r ∈ references (methodEvents m d))
    (resolved : resolve (methodEvents m d) r.name r.frame.chain = some (.stmt d.mark.serial))
    (named : r.name = instanceName d) : ∃ a ∈ reads, IsRead m d r a := by
  obtain ⟨f, is⟩ : ∃ f, findingOf? m d r = some f := by
    rw [findingOf?, finding?, resolved, named]
    cases r.ctx with
    | load =>
      simp only [beq_self_eq_true, Bool.and_self, if_true]
      split <;> exact ⟨_, rfl⟩
    | store | del =>
      simp only [beq_self_eq_true, Bool.and_self, if_true]
      split <;> exact ⟨_, rfl⟩
  obtain ⟨a, ha, isRead, -⟩ := h.finding (mem_found.2 ⟨hr, is⟩)
  exact ⟨a, ha, isRead⟩

/-- Every accepted read is one. -/
theorem exists_reference {a : AttributeRead} (ha : a ∈ reads) : ∃ r, IsRead m d r a := by
  obtain ⟨read, collected, accepted⟩ := exists_of_mem_right h.accepted ha
  obtain ⟨entry, listed, mem⟩ := List.mem_flatMap.1 collected
  rw [analyze_eq] at listed
  obtain ⟨⟨key, owner⟩, -, rfl⟩ := List.mem_map.1 listed
  obtain ⟨r, mem⟩ := mem_instanceReads.1 mem
  exact ⟨r, (isRead_of_accepted (List.mem_of_mem_filter mem) accepted).2⟩

end Passed

/-! ## Where accepted reads stand -/

/-- An attribute of a name that is the callee of no call. -/
structure IsAccess (m : Module) (n : Node) : Prop where
  mem : n ∈ m.nodes
  object : ∃ mark value member ctx, n.expr? = some (.attr mark value member ctx)
    ∧ ∃ m id c, value = .name m id c
  notCalled : ∀ call ∈ m.nodes, ∀ mark func args, call.expr? = some (.call mark func args) →
    n ≠ .read func

theorem IsRead.exists_access {r : Reference} {a : AttributeRead} (laid : m.Laid)
    (method : IsMethod m c d) (h : IsRead m d r a) :
    ∃ n ∈ (Node.stmt (.functionDef d)).all, IsAccess m n ∧ n.span = a.span
      ∧ a.span.start ≤ r.span.start ∧ r.span.stop ≤ a.span.stop := by
  obtain ⟨ident, -, used⟩ := h.used
  obtain ⟨x, hx, mention⟩ := exists_mention laid method h.mem
  have access : r.use.access? = some a.span := by
    rw [used]
    rfl
  obtain ⟨isAccess, use, span⟩ := Node.accessOf?_of_mem_mentions mention access
  obtain ⟨y, hy, mark, value, member, ctx, isAttr, at_, object, isValue, inAccess, name⟩ :=
    Node.exists_access hx isAccess
  rw [use, used] at object
  obtain ⟨-, -, -, notCalled⟩ := Use.object.inj object
  have mem := Module.mem_nodes_of_mem_usedFrom method.mem_reachableStmts hy
  have reaches : y.2.node.span = a.span := (Node.span_of_expr? isAttr).trans at_
  refine ⟨y.2.node, Node.mem_all_of_mem_usedFrom hy, ⟨mem, ⟨_, _, _, _, isAttr, name⟩, ?_⟩,
    reaches, ?_⟩
  · intro call hc mark' func args isCall isFunc
    have calls := laid.calls_of_callee method.mem_reachableStmts hy hc isCall isFunc
    rw [← notCalled] at calls
    nomatch calls
  · have inside := (laid.node mem).here.inside _ inAccess
    rwa [span, reaches] at inside

/-- Going by keys that are all different meets everything that has one of them once. -/
lemma flatMap_filter_perm {α κ : Type} [DecidableEq κ] {keys : List κ} {xs : List α} {key : α → κ}
    (nodup : keys.Nodup) (known : ∀ x ∈ xs, key x ∈ keys) :
    (keys.flatMap fun k => xs.filter (key · == k)).Perm xs := by
  induction xs with
  | nil => simp
  | cons x xs ih =>
    have others := ih fun y hy => known y (List.mem_cons_of_mem _ hy)
    obtain ⟨s, t, rfl⟩ := List.append_of_mem (known x List.mem_cons_self)
    have once := List.nodup_middle.1 nodup
    have same {ks : List κ} (sub : ks ⊆ s ++ t) :
        (ks.flatMap fun k => (x :: xs).filter (key · == k))
          = ks.flatMap fun k => xs.filter (key · == k) := by
      refine List.flatMap_congr fun k hk => List.filter_cons_of_neg ?_
      rintro is
      obtain rfl := beq_iff_eq.1 is
      exact (List.nodup_cons.1 once).1 (sub hk)
    rw [List.flatMap_append, List.flatMap_cons] at others ⊢
    have own : (x :: xs).filter (key · == key x) = x :: xs.filter (key · == key x) :=
      List.filter_cons_of_pos (beq_self_eq_true (key x))
    rw [same (List.subset_append_left s t), same (List.subset_append_right s t), own]
    exact List.perm_middle.trans (others.cons x)

/-- The reads in all reports are the reads that are found. -/
lemma reported_perm (laid : m.Laid) (method : IsMethod m c d) :
    ((analyze m (.functionDef d)).scopes.flatMap (·.2.instanceReads)).Perm
      ((found m d).filterMap (·.2.read?)) := by
  have byKey : (analyze m (.functionDef d)).scopes.flatMap (·.2.instanceReads)
      = (openedKeys (methodEvents m d)).flatMap fun key =>
        instanceReads ((found m d).filter (·.1.frame.report == key)) := by
    rw [analyze_eq, openedKeys, List.flatMap_map, List.flatMap_map]
    rfl
  have sorted (key : ScopeKey) : (instanceReads ((found m d).filter (·.1.frame.report == key))).Perm
      (((found m d).filter (·.1.frame.report == key)).filterMap (·.2.read?)) :=
    List.mergeSort_perm ..
  rw [byKey]
  refine (List.Perm.flatMap_left _ fun key _ => sorted key).trans ?_
  rw [← List.filterMap_flatMap]
  refine (flatMap_filter_perm (openedKeys_nodup laid method) ?_).filterMap _
  rintro ⟨r, f⟩ mem
  exact (references_owned r (mem_found.1 mem).1).report

/-- Accepted reads lie apart. -/
theorem Passed.apart (laid : m.Laid) (method : IsMethod m c d)
    (h : Passed (analyze m (.functionDef d)) reads) :
    (reads.map (·.span)).Pairwise Span.Apart := by
  rw [map_span_eq h.accepted]
  have accesses : (((found m d).filterMap (·.2.read?)).map (·.access)).Sublist
      ((references (methodEvents m d)).filterMap (·.use.access?)) := by
    rw [found, List.filterMap_filterMap, List.map_filterMap]
    refine filterMap_sublist fun r hr access is => ?_
    obtain ⟨read, found, rfl⟩ := Option.map_eq_some_iff.1 is
    obtain ⟨⟨r', f⟩, found, isRead⟩ := Option.bind_eq_some_iff.1 found
    obtain ⟨f, known, same⟩ := Option.map_eq_some_iff.1 found
    obtain ⟨rfl, rfl⟩ := Prod.mk.inj same
    obtain ⟨a, -, ⟨-, -, -, -, ⟨ident, -, used⟩, -⟩, rfl⟩ := h.finding (mem_found.2 ⟨hr, known⟩)
    obtain rfl := Option.some.inj isRead
    rw [InstanceRead.ofReference, used]
    rfl
  exact (((reported_perm laid method).map _).pairwise_iff Span.Apart.symm).2
    ((accesses_apart laid method).sublist accesses)

end MethodLift.Safety

import MethodLift.Proofs.Method.Parameter

/-!
# From reads to parameters

The plan for some reads has one entry for each attribute, in the order in which the attributes are
read first, and the references of an entry are the reads of its attribute in their order.  The name
of an entry is the first free one of the attribute and the attribute with the numbers one, two and so
on behind it (`ofReads_synthesized`).

What is free depends on the entries in front, so this is kept read by read, and a read changes the
plan in one of two ways: an entry that is there takes it in and keeps its name (`Synthesized.known`),
or an entry with a name of its own is put behind the others (`Synthesized.unknown`).
-/

namespace MethodLift

open MethodLift.Syntax

namespace ParameterPlan

variable {reads : List AttributeRead} {reserved : List String} {plan : ParameterPlan}
  {read : AttributeRead}

/-- What the plan for some reads is. -/
structure Synthesized (reads : List AttributeRead) (reserved : List String)
    (plan : ParameterPlan) : Prop where
  /-- There is an entry for each attribute, in the order of the first reads. -/
  members : plan.map (·.member) = (reads.map (·.member)).eraseDups
  /-- The references of an entry are the reads of its attribute, in their order. -/
  references : ∀ p ∈ plan, p.references = (reads.filter (·.member == p.member)).map (·.span)
  /-- Every read belongs to one entry and no other. -/
  owned : ∀ read ∈ reads, ∃! p, p ∈ plan ∧ p.member = read.member
  /-- The names differ from each other, from the reserved names and from the reserved words. -/
  fresh : Fresh reserved plan
  /-- Each name is the first one that is free beside the entries in front. -/
  named : ∀ earlier p later, plan = earlier ++ p :: later →
    FirstUntaken (isTaken reserved earlier) "_" p.member p.parameter

/-! ## One more read -/

/-- An entry after one more read, which belongs to it if it is of the same attribute. -/
def taking (read : AttributeRead) (p : NewParameter) : NewParameter :=
  if p.member == read.member then { p with references := p.references ++ [read.span] } else p

@[simp] lemma taking_member (read : AttributeRead) (p : NewParameter) :
    (taking read p).member = p.member := by
  unfold taking
  split <;> rfl

@[simp] lemma taking_parameter (read : AttributeRead) (p : NewParameter) :
    (taking read p).parameter = p.parameter := by
  unfold taking
  split <;> rfl

lemma isTaken_map_taking (reserved : List String) (plan : ParameterPlan) (read : AttributeRead) :
    isTaken reserved (plan.map (taking read)) = isTaken reserved plan := by
  funext name
  have same : parameters (plan.map (taking read)) = plan.parameters := by
    rw [parameters, List.map_map]
    exact List.map_congr_left fun p _ => taking_parameter read p
  rw [isTaken, isTaken, same]

/-- The reads of an attribute, with one more read. -/
lemma taking_references {p : NewParameter}
    (h : p.references = (reads.filter (·.member == p.member)).map (·.span)) :
    (taking read p).references
      = ((reads ++ [read]).filter (·.member == p.member)).map (·.span) := by
  rw [List.filter_append, List.map_append, ← h, taking]
  by_cases same : p.member = read.member
  · simp [same]
  · simp [same, Ne.symm same]

lemma get?_isSome : (plan.get? read.member).isSome = true ↔ ∃ p ∈ plan, p.member = read.member := by
  simp [get?, List.find?_isSome]

/-- A read of a known attribute goes to the entry of the attribute. -/
lemma addRead_known (known : ∃ p ∈ plan, p.member = read.member) :
    addRead reserved plan read = plan.map (taking read) := if_pos (get?_isSome.2 known)

/-- A read of a new attribute makes an entry, whose name is the first free one. -/
lemma addRead_unknown (unknown : ¬ ∃ p ∈ plan, p.member = read.member) :
    ∃ name, FirstUntaken (isTaken reserved plan) "_" read.member name
      ∧ addRead reserved plan read = plan ++ [⟨read.member, name, [read.span]⟩] := by
  set bound := reserved.length + plan.length + Keyword.all.length with is
  have few : (reserved ++ plan.parameters ++ Keyword.all.map (·.text)).length ≤ bound := by
    simp only [List.length_append, parameters, List.length_map, is]
    omega
  exact ⟨_, firstUntaken_freshName (fun _ => mem_of_isTaken) few, if_neg (mt get?_isSome.1 unknown)⟩

/-- An attribute has been read if and only if it has an entry. -/
lemma Synthesized.mem_members (h : Synthesized reads reserved plan) {member : String} :
    member ∈ reads.map (·.member) ↔ ∃ p ∈ plan, p.member = member := by
  rw [← List.mem_eraseDups, ← h.members, List.mem_map]

/-- A plan keeps what it is when an entry takes in a read. -/
lemma Synthesized.known (h : Synthesized reads reserved plan)
    (known : ∃ p ∈ plan, p.member = read.member) :
    Synthesized (reads ++ [read]) reserved (addRead reserved plan read) := by
  have fresh := addRead_fresh h.fresh read
  rw [addRead_known known] at fresh ⊢
  refine ⟨?_, ?_, ?_, fresh, ?_⟩
  · have nothing : [read.member].removeAll (reads.map (·.member)) = [] := by
      have before : List.elem read.member (reads.map (·.member)) = true :=
        List.elem_eq_true_of_mem (h.mem_members.2 known)
      rw [List.removeAll, List.filter_singleton, before]
      rfl
    rw [List.map_map, List.map_append, List.eraseDups_append, List.map_singleton, nothing,
      List.eraseDups_nil, List.append_nil, ← h.members]
    exact List.map_congr_left fun p _ => taking_member read p
  · intro q hq
    obtain ⟨p, hp, rfl⟩ := List.mem_map.1 hq
    rw [taking_member]
    exact taking_references (h.references p hp)
  · have moved (member : String) (own : ∃! p, p ∈ plan ∧ p.member = member) :
        ∃! q, q ∈ plan.map (taking read) ∧ q.member = member := by
      obtain ⟨p, ⟨hp, is⟩, only⟩ := own
      refine ⟨taking read p, ⟨List.mem_map_of_mem hp, (taking_member read p).trans is⟩, ?_⟩
      rintro q ⟨hq, same⟩
      obtain ⟨x, hx, rfl⟩ := List.mem_map.1 hq
      rw [only x ⟨hx, (taking_member read x).symm.trans same⟩]
    refine List.forall_mem_append.2 ⟨fun r hr => moved _ (h.owned r hr),
      List.forall_mem_singleton.2 (moved _ ?_)⟩
    obtain ⟨r, hr, same⟩ := List.mem_map.1 (h.mem_members.2 known)
    exact same ▸ h.owned r hr
  · intro earlier q later split
    obtain ⟨front, back, rfl, rfl, tail⟩ := List.map_eq_append_iff.1 split
    obtain ⟨p, rest, rfl, rfl, -⟩ := List.map_eq_cons_iff.1 tail
    rw [isTaken_map_taking, taking_member, taking_parameter]
    exact h.named front p rest rfl

/-- A plan keeps what it is when an entry is put behind the others. -/
lemma Synthesized.unknown (h : Synthesized reads reserved plan)
    (unknown : ¬ ∃ p ∈ plan, p.member = read.member) :
    Synthesized (reads ++ [read]) reserved (addRead reserved plan read) := by
  have fresh := addRead_fresh h.fresh read
  obtain ⟨name, first, is⟩ :
      ∃ name, FirstUntaken (isTaken reserved plan) "_" read.member name ∧ _ := addRead_unknown unknown
  have unread : read.member ∉ reads.map (·.member) := mt h.mem_members.1 unknown
  rw [is] at fresh ⊢
  have others {p : NewParameter} (hp : p ∈ plan) : p.member ≠ read.member :=
    fun same => unknown ⟨p, hp, same⟩
  refine ⟨?_, ?_, ?_, fresh, ?_⟩
  · have alone : [read.member].removeAll (reads.map (·.member)) = [read.member] := by
      simpa [List.removeAll] using unread
    rw [List.map_append, List.map_append, List.eraseDups_append, List.map_singleton,
      List.map_singleton, alone, ← h.members]
    rfl
  · refine List.forall_mem_append.2 ⟨fun p hp => ?_, List.forall_mem_singleton.2 ?_⟩
    · have apart : (read.member == p.member) = false := beq_false_of_ne (others hp).symm
      rw [List.filter_append, List.filter_singleton, apart, cond_false, List.append_nil]
      exact h.references p hp
    · have none : reads.filter (·.member == read.member) = [] := by
        refine List.filter_eq_nil_iff.2 fun r hr same => unread ?_
        exact eq_of_beq same ▸ List.mem_map_of_mem hr
      simp [List.filter_append, none]
  · refine List.forall_mem_append.2 ⟨fun r hr => ?_, List.forall_mem_singleton.2 ?_⟩
    · obtain ⟨p, ⟨hp, is⟩, only⟩ := h.owned r hr
      refine ⟨p, ⟨List.mem_append_left _ hp, is⟩, ?_⟩
      rintro q ⟨hq, same⟩
      rcases List.mem_append.1 hq with hq | hq
      · exact only q ⟨hq, same⟩
      · obtain rfl := List.mem_singleton.1 hq
        exact absurd (is.trans same.symm) (others hp)
    · refine ⟨⟨read.member, name, [read.span]⟩, ⟨List.mem_append_right _ List.mem_cons_self, rfl⟩, ?_⟩
      rintro q ⟨hq, same⟩
      rcases List.mem_append.1 hq with hq | hq
      · exact absurd same (others hq)
      · exact List.mem_singleton.1 hq
  · intro earlier p later split
    rcases List.append_eq_append_iff.1 split with ⟨more, rfl, tail⟩ | ⟨more, rfl, tail⟩
    · cases more with
      | nil =>
        obtain ⟨rfl, rfl⟩ := List.cons.inj tail
        rwa [List.append_nil]
      | cons x xs => simp at tail
    · cases more with
      | nil =>
        obtain ⟨rfl, rfl⟩ := List.cons.inj tail
        rwa [List.append_nil] at first
      | cons x xs =>
        obtain ⟨rfl, -⟩ := List.cons.inj tail
        exact h.named earlier p xs rfl

/-- The plan for some reads has one entry for each attribute, in the order of the first reads, with
the reads of the attribute as its references and the first free name as its parameter. -/
theorem ofReads_synthesized (reads : List AttributeRead) (reserved : List String) :
    Synthesized reads reserved (ofReads reads reserved) := by
  induction reads using List.reverseRecOn with
  | nil => exact ⟨rfl, nofun, nofun, ⟨.nil, nofun, nofun⟩, by simp [ofReads]⟩
  | append_singleton reads read ih =>
    rw [ofReads, List.foldl_append]
    by_cases known : ∃ p ∈ ofReads reads reserved, p.member = read.member
    · exact ih.known known
    · exact ih.unknown known

/-- A name with a number behind it can be the name of another attribute, which then gets a number of
its own. -/
example : (ofReads [⟨"w", ⟨0, 6⟩⟩, ⟨"w_2", ⟨10, 18⟩⟩, ⟨"w", ⟨20, 26⟩⟩] ["w", "w_1"]).map
    (fun p => (p.parameter, p.references.length)) = [("w_2", 2), ("w_2_1", 1)] := by cbv

end ParameterPlan

end MethodLift

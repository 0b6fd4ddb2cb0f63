import MethodLift.Proofs.Call.Absorbing
import MethodLift.Proofs.Edit.Exchange

/-!
# The edits of the function's text

The text of the new function is the method's own with edits, and two kinds of them can remove a read
of an attribute: the replacement of the read by its parameter, and the edit that puts the function's
name in the place of a callee, for a call in the method whose receiver contains the read.  Reads that
a callee covers are left to it, so that one edit covers a read in any case (`coverings_readEdits`).

What stands in one of these edits has no part in the function (`ofMethod_exchange`).
-/

namespace MethodLift

open MethodLift.Syntax MethodLift.Scope

/-! ## The reads of a plan -/

namespace ParameterPlan

variable {reserved : List String} {plan : ParameterPlan}

lemma members_addRead (once : (plan.map (·.member)).Nodup) (read : AttributeRead) :
    ((addRead reserved plan read).map (·.member)).Nodup := by
  rw [addRead]
  split
  · rw [List.map_map]
    have same : plan.map ((·.member) ∘ fun p => if p.member == read.member then
        { p with references := p.references ++ [read.span] } else p) = plan.map (·.member) := by
      refine List.map_congr_left fun p _ => ?_
      show (if p.member == read.member then _ else p).member = p.member
      split
      · rfl
      · rfl
    rwa [same]
  next unknown =>
    rw [List.map_append, List.map_singleton, ← List.concat_eq_append]
    refine once.concat fun known => ?_
    obtain ⟨p, hp, same⟩ := List.mem_map.1 known
    rw [Bool.not_eq_true, Option.isSome_eq_false_iff, Option.isNone_iff_eq_none] at unknown
    exact List.find?_eq_none.1 unknown p hp (beq_iff_eq.2 same)

/-- One more read is one more read that is replaced. -/
lemma replacedReads_addRead (once : (plan.map (·.member)).Nodup) (read : AttributeRead) :
    ((addRead reserved plan read).replacedReads.map (·.span)).Perm
      (read.span :: plan.replacedReads.map (·.span)) := by
  have spans (plan : ParameterPlan) :
      plan.replacedReads.map (·.span) = plan.flatMap (·.references) := by
    rw [replacedReads, List.map_flatMap]
    refine List.flatMap_congr fun p _ => ?_
    rw [List.map_map]
    exact List.map_id _
  rw [spans, spans, addRead]
  split
  next known =>
    obtain ⟨p, found⟩ := Option.isSome_iff_exists.1 known
    have named := List.find?_some found
    rw [beq_iff_eq] at named
    obtain ⟨front, behind, rfl⟩ := List.append_of_mem (List.mem_of_find?_eq_some found)
    have other : ∀ q ∈ front ++ behind, (q.member == read.member) = false := by
      intro q hq
      rw [List.map_append, List.map_cons] at once
      have new := (List.nodup_cons.1 (List.nodup_middle.1 once)).1
      rw [← List.map_append] at new
      rw [beq_eq_false_iff_ne, ← named]
      exact fun same => new (same ▸ List.mem_map_of_mem hq)
    have unchanged {qs : List NewParameter} (sub : qs ⊆ front ++ behind) :
        (qs.map fun q => if q.member == read.member then
          { q with references := q.references ++ [read.span] } else q) = qs := by
      refine (List.map_congr_left fun q hq => ?_).trans (List.map_id qs)
      rw [if_neg (by rw [other q (sub hq)]; exact Bool.false_ne_true)]
      rfl
    rw [List.map_append, List.map_cons, unchanged (List.subset_append_left ..),
      unchanged (List.subset_append_right ..), if_pos (beq_iff_eq.2 named)]
    simp only [List.flatMap_append, List.flatMap_cons]
    rw [List.append_assoc, List.singleton_append, ← List.append_assoc, ← List.append_assoc]
    exact List.perm_middle
  · rw [List.flatMap_append, List.flatMap_singleton]
    exact List.perm_append_comm

/-- What is replaced are the reads that a plan was made for. -/
theorem replacedReads_ofReads (reads : List AttributeRead) (reserved : List String) :
    ((ofReads reads reserved).replacedReads.map (·.span)).Perm (reads.map (·.span)) := by
  have all (plan : ParameterPlan) (once : (plan.map (·.member)).Nodup) :
      ((reads.foldl (addRead reserved) plan).replacedReads.map (·.span)).Perm
        (plan.replacedReads.map (·.span) ++ reads.map (·.span)) := by
    induction reads generalizing plan with
    | nil =>
      rw [List.map_nil, List.append_nil]
      exact .refl _
    | cons read reads ih =>
      refine (ih _ (members_addRead once read)).trans ?_
      refine ((replacedReads_addRead once read).append_right _).trans ?_
      exact List.perm_middle.symm
  exact all [] List.nodup_nil

end ParameterPlan

/-! ## The edits -/

namespace NewFunction

variable {plan : ParameterPlan} {r : ReplacedRead} {inner : List Edit}

lemma isAbsorbed_eq_false {reference : Span} :
    isAbsorbed inner reference = false ↔ Edit.coverings reference inner = [] := by
  rw [isAbsorbed, List.any_eq_false, Edit.coverings, List.filter_eq_nil_iff]

lemma readEdits_eq : readEdits plan inner
    = (plan.replacedReads.filter fun r => !isAbsorbed inner r.span).map
      fun r => replace r.span r.parameter := by
  rw [readEdits, ParameterPlan.replacedReads, List.filter_flatMap, List.map_flatMap]
  refine List.flatMap_congr fun p _ => ?_
  rw [List.filter_map, List.map_map]
  rfl

/-- Of reads that lie apart, one covers a read. -/
lemma coverings_replacements {reads : List ReplacedRead}
    (apart : reads.Pairwise fun a b => a.span.Apart b.span) (hr : r ∈ reads)
    (nonempty : r.span.start < r.span.stop) :
    Edit.coverings r.span (reads.map fun r => replace r.span r.parameter)
      = [replace r.span r.parameter] := by
  have others {rs : List ReplacedRead} (apart : ∀ x ∈ rs, x.span.Apart r.span) :
      Edit.coverings r.span (rs.map fun r => replace r.span r.parameter) = [] := by
    refine Edit.coverings_eq_nil_of_apart nonempty fun e he => ?_
    obtain ⟨x, hx, rfl⟩ := List.mem_map.1 he
    exact apart x hx
  have own (es : List Edit) : Edit.coverings r.span (replace r.span r.parameter :: es)
      = replace r.span r.parameter :: Edit.coverings r.span es :=
    Edit.coverings_cons_of_covers (Span.isEmpty_eq_false.2 nonempty)
      (Span.contains_iff.2 ⟨Nat.le_refl _, Nat.le_refl _⟩)
  obtain ⟨front, behind, rfl⟩ := List.append_of_mem hr
  obtain ⟨-, later, earlier⟩ := List.pairwise_append.1 apart
  rw [List.map_append, List.map_cons, Edit.coverings_append,
    others fun x hx => earlier x hx r List.mem_cons_self, List.nil_append, own,
    others fun x hx => ((List.pairwise_cons.1 later).1 x hx).symm]

/-- Among the replacements of reads and the changes of calls, what covers a read is what covers it
among the changes; if nothing does, it is the replacement of the read. -/
theorem coverings_readEdits (inner : List Edit)
    (apart : plan.replacedReads.Pairwise fun a b => a.span.Apart b.span)
    (hr : r ∈ plan.replacedReads) (nonempty : r.span.start < r.span.stop) :
    Edit.coverings r.span (readEdits plan inner ++ inner)
      = if Edit.coverings r.span inner = [] then [replace r.span r.parameter]
        else Edit.coverings r.span inner := by
  rw [Edit.coverings_append, readEdits_eq]
  split
  next none =>
    rw [none, List.append_nil]
    refine coverings_replacements (apart.filter _) (List.mem_filter.2 ⟨hr, ?_⟩) nonempty
    rw [isAbsorbed_eq_false.2 none]
    rfl
  next covered =>
    have gone : Edit.coverings r.span ((plan.replacedReads.filter
        fun r => !isAbsorbed inner r.span).map fun r => replace r.span r.parameter) = [] := by
      refine Edit.coverings_eq_nil_of_apart nonempty fun e he => ?_
      obtain ⟨x, hx, rfl⟩ := List.mem_map.1 he
      obtain ⟨hx, free⟩ := List.mem_filter.1 hx
      have symm : Std.Symm fun a b : ReplacedRead => a.span.Apart b.span :=
        ⟨fun _ _ apart => apart.symm⟩
      refine apart.forall hx hr ?_
      rintro rfl
      rw [Bool.not_eq_true', isAbsorbed_eq_false] at free
      exact covered free
    rw [gone, List.nil_append]

/-- The steps to the text of a function. -/
lemma ofMethod_ok {text : String} {d : FunctionDef Stmt} {style : ArgumentStyle}
    {changes : List Edit} {function : NewFunction}
    (made : ofMethod text (.functionDef d) plan style changes = .ok function) :
    ∃ normal edited, Edit.normalize ((parameterEdits d.params plan.parameters style
        ++ readEdits plan (innerEdits (Text.lineStart text.toList d.mark.span.start)
          d.mark.span.stop changes)
        ++ innerEdits (Text.lineStart text.toList d.mark.span.start) d.mark.span.stop changes).map
          (relative (Text.lineStart text.toList d.mark.span.start))) = .ok normal
      ∧ Edit.apply (Text.sliceString text
        ⟨Text.lineStart text.toList d.mark.span.start, d.mark.span.stop⟩) normal = .ok edited
      ∧ function.text = Text.dedent edited
        (d.mark.span.start - Text.lineStart text.toList d.mark.span.start) := by
  obtain ⟨normal, normalized, made⟩ := bind_eq_ok.1 made
  obtain ⟨edited, applied, made⟩ := bind_eq_ok.1 made
  obtain rfl := Except.ok.inj made
  exact ⟨normal, edited, normalized, applied, rfl⟩

/-- With other characters in the edits, or outside the lines of the method, the function is the
same. -/
theorem ofMethod_exchange {text other : String} {places : List Span} {d : FunctionDef Stmt}
    {style : ArgumentStyle} {changes : List Edit} {function : NewFunction}
    (same : Text.SameBut places 0 text.toList other.toList)
    (made : ofMethod text (.functionDef d) plan style changes = .ok function)
    (covered : ∀ place ∈ places,
      Span.Apart ⟨Text.lineStart text.toList d.mark.span.start, d.mark.span.stop⟩ place
      ∨ ∃ e ∈ readEdits plan (innerEdits (Text.lineStart text.toList d.mark.span.start)
            d.mark.span.stop changes)
          ++ innerEdits (Text.lineStart text.toList d.mark.span.start) d.mark.span.stop changes,
        Text.lineStart text.toList d.mark.span.start ≤ e.span.start
          ∧ e.span.contains place = true) :
    ofMethod other (.functionDef d) plan style changes = .ok function := by
  obtain ⟨normal, normalized, made⟩ := bind_eq_ok.1 made
  obtain ⟨edited, applied, made⟩ := bind_eq_ok.1 made
  have applied' := Edit.apply_area_exchange same normalized applied fun place hp => by
    refine (covered place hp).imp_right fun ⟨e, he, front, covers⟩ => ?_
    refine ⟨relative _ e, List.mem_map_of_mem ?_, ?_⟩
    · rw [List.append_assoc]
      exact List.mem_append_right _ he
    · rw [Span.contains_iff] at covers ⊢
      change e.span.start - Text.lineStart text.toList d.mark.span.start
          + Text.lineStart text.toList d.mark.span.start ≤ place.start
        ∧ place.stop ≤ e.span.stop - Text.lineStart text.toList d.mark.span.start
          + Text.lineStart text.toList d.mark.span.start
      omega
  unfold ofMethod
  dsimp only
  rw [← Text.lineStart_congr same.alike]
  exact bind_eq_ok.2 ⟨normal, normalized, bind_eq_ok.2 ⟨edited, applied', made⟩⟩

end NewFunction

end MethodLift

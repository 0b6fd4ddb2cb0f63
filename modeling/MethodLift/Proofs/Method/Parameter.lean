import MethodLift.Method.Parameter
import MethodLift.Proofs.Method.FreshName

/-!
# The names of new parameters

However many attributes a method reads, its new parameters differ from each other, from the reserved
names, and from the reserved words (`ofReads_fresh`).  One more read keeps this: it either belongs
to a parameter that is there, which keeps its name, or adds one with a fresh name.

The reserved names of a plan are all names that occur in the method.  The names of its parameters
are among them (`mem_usedNames_of_mem_names`), so the new parameters can stand beside the old ones.
-/

namespace MethodLift

open MethodLift.Syntax

/-! ## Reserved words -/

lemma mem_texts_of_isKeyword {word : String} (h : isKeyword word = true) :
    word ∈ Keyword.all.map (·.text) := by
  obtain ⟨k, found⟩ := Option.isSome_iff_exists.1 h
  have spelled := List.find?_some found
  exact List.mem_map.2 ⟨k, Keyword.mem_all k, eq_of_beq spelled⟩

/-! ## The plan -/

namespace ParameterPlan

variable {reserved : List String} {plan : ParameterPlan}

/-- The new parameters of a plan differ from each other, from the reserved names, and from the
reserved words. -/
structure Fresh (reserved : List String) (plan : ParameterPlan) : Prop where
  distinct : plan.parameters.Nodup
  free : ∀ name ∈ plan.parameters, name ∉ reserved
  noKeyword : ∀ name ∈ plan.parameters, isKeyword name = false

/-- The names that are taken, in one list. -/
lemma mem_of_isTaken {name : String} (h : isTaken reserved plan name = true) :
    name ∈ reserved ++ plan.parameters ++ Keyword.all.map (·.text) := by
  rw [isTaken, Bool.or_eq_true, Bool.or_eq_true, List.contains_iff_mem, List.contains_iff_mem] at h
  rw [List.mem_append, List.mem_append]
  exact h.imp_right mem_texts_of_isKeyword

lemma not_isTaken_iff {name : String} : isTaken reserved plan name = false ↔
    name ∉ reserved ∧ name ∉ plan.parameters ∧ isKeyword name = false := by
  rw [isTaken, Bool.or_eq_false_iff, Bool.or_eq_false_iff, and_assoc]
  simp only [← Bool.not_eq_true, List.contains_iff_mem]

/-- One more read keeps the names of a plan, or adds a name that is not taken. -/
lemma parameters_addRead (read : AttributeRead) :
    (addRead reserved plan read).parameters = plan.parameters ∨
      ∃ name, isTaken reserved plan name = false
        ∧ (addRead reserved plan read).parameters = plan.parameters ++ [name] := by
  rw [addRead]
  split
  · refine .inl ?_
    rw [parameters, List.map_map]
    refine List.map_congr_left ?_
    intro p _
    show (if p.member == read.member then _ else p).parameter = p.parameter
    split
    · rfl
    · rfl
  · set bound := reserved.length + plan.length + Keyword.all.length
    have few : (reserved ++ plan.parameters ++ Keyword.all.map (·.text)).length ≤ bound := by
      simp only [List.length_append, parameters, List.length_map, bound]
      omega
    have free : isTaken reserved plan
        (freshName (isTaken reserved plan) bound read.member "_") = false :=
      freshName_free (fun _ => mem_of_isTaken) few
    exact .inr ⟨_, free, List.map_append⟩

lemma addRead_fresh (h : Fresh reserved plan) (read : AttributeRead) :
    Fresh reserved (addRead reserved plan read) := by
  have names : (addRead reserved plan read).parameters = plan.parameters ∨
      ∃ name, isTaken reserved plan name = false
        ∧ (addRead reserved plan read).parameters = plan.parameters ++ [name] :=
    parameters_addRead read
  rcases names with same | ⟨name, free, added⟩
  · exact ⟨same ▸ h.distinct, same ▸ h.free, same ▸ h.noKeyword⟩
  · obtain ⟨unreserved, new, noKeyword⟩ := not_isTaken_iff.1 free
    refine ⟨?_, ?_, ?_⟩
    · rw [added, ← List.concat_eq_append]
      exact h.distinct.concat new
    · rw [added]
      exact List.forall_mem_append.2 ⟨h.free, List.forall_mem_singleton.2 unreserved⟩
    · rw [added]
      exact List.forall_mem_append.2 ⟨h.noKeyword, List.forall_mem_singleton.2 noKeyword⟩

/-- The names of new parameters are fresh, whatever is read. -/
theorem ofReads_fresh (reads : List AttributeRead) (reserved : List String) :
    Fresh reserved (ofReads reads reserved) := by
  have keeps : ∀ plan, Fresh reserved plan →
      Fresh reserved (reads.foldl (addRead reserved) plan) := by
    induction reads with
    | nil => exact fun plan h => h
    | cons read reads ih => exact fun plan h => ih _ (addRead_fresh h read)
  exact keeps [] ⟨List.nodup_nil, nofun, nofun⟩

end ParameterPlan

/-! ## The reserved names -/

namespace Scope

lemma mem_sortedNames {names : List String} {name : String} :
    name ∈ sortedNames names ↔ name ∈ names := by
  rw [sortedNames, List.mem_eraseDups, List.mem_mergeSort]

/-- The parameters of a method are among the names that occur in it. -/
theorem mem_usedNames_of_mem_names (m : Module) {d : FunctionDef Stmt} {ident : Ident}
    (h : ident ∈ d.params.names) : ident.name ∈ (analyze m (.functionDef d)).usedNames := by
  set key : ScopeKey := .stmt d.mark.serial
  have opens : (key, ⟨.method, d.name.name, d.mark.span⟩) ∈ openedScopes (methodEvents m d) := by
    refine List.mem_filterMap.2 ⟨.opened key ⟨.method, d.name.name, d.mark.span⟩, ?_, rfl⟩
    exact List.mem_append_right _ List.mem_cons_self
  have binds : Event.bound key ident.name ∈ methodEvents m d := by
    refine List.mem_append_right _ (List.mem_cons_of_mem _ (List.mem_append_left _ ?_))
    exact List.mem_append_right _ (List.mem_map.2 ⟨ident, h, rfl⟩)
  show ident.name ∈ usedNames (methodEvents m d)
  rw [usedNames, mem_sortedNames, List.mem_filterMap]
  refine ⟨.bound key ident.name, binds, ?_⟩
  have opened : ((openedScopes (methodEvents m d)).map (·.1)).contains key = true :=
    List.contains_iff_mem.2 (List.mem_map.2 ⟨_, opens, rfl⟩)
  exact if_pos opened

end Scope

end MethodLift

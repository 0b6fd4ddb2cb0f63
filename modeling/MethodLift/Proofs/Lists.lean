import Mathlib

/-!
# Lists

What is known of lists in order, of lists that are sorted or left out from, and of looking things up
in them.
-/

namespace MethodLift

/-- Leaving out more of what a list is mapped to. -/
lemma filterMap_sublist {α β : Type} {xs : List α} {f g : α → Option β}
    (less : ∀ x ∈ xs, ∀ b, f x = some b → g x = some b) :
    (xs.filterMap f).Sublist (xs.filterMap g) := by
  induction xs with
  | nil => exact .refl _
  | cons x xs ih =>
    have rest := ih fun y hy => less y (List.mem_cons_of_mem _ hy)
    cases known : f x with
    | none =>
      rw [List.filterMap_cons_none known]
      exact rest.trans ((List.sublist_cons_self x xs).filterMap g)
    | some b =>
      rw [List.filterMap_cons_some known,
        List.filterMap_cons_some (less x List.mem_cons_self b known)]
      exact rest.cons_cons b

/-- Looking up what is listed once. -/
lemma lookup_eq_some_iff_mem {α β : Type} [BEq α] [LawfulBEq α] {ps : List (α × β)} {a : α} {b : β}
    (nodup : (ps.map Prod.fst).Nodup) : ps.lookup a = some b ↔ (a, b) ∈ ps := by
  induction ps with
  | nil => simp
  | cons p ps ih =>
    obtain ⟨a', b'⟩ := p
    obtain ⟨fresh, rest⟩ := List.nodup_cons.1 nodup
    rw [List.lookup_cons, List.mem_cons, ← ih rest]
    cases same : a == a' with
    | true =>
      obtain rfl := eq_of_beq same
      have absent : (a, b) ∉ ps := fun h => fresh (List.mem_map.2 ⟨(a, b), h, rfl⟩)
      rw [ih rest]
      simp [absent, eq_comm]
    | false =>
      have other : a ≠ a' := by simpa using same
      simp [other]

/-- Sorting keeps the order of what it does not tell apart. -/
lemma filter_mergeSort {α : Type} {le : α → α → Bool} {p : α → Bool}
    (trans : ∀ a b c, le a b = true → le b c = true → le a c = true)
    (total : ∀ a b, (le a b || le b a) = true)
    (tied : ∀ a b, p a = true → p b = true → le a b = true) (xs : List α) :
    (xs.mergeSort le).filter p = xs.filter p := by
  have inOrder : (xs.filter p).Pairwise fun a b => le a b = true :=
    List.pairwise_of_forall_mem_list fun a ha b hb =>
      tied a b (List.mem_filter.1 ha).2 (List.mem_filter.1 hb).2
  have sub : (xs.filter p).Sublist ((xs.mergeSort le).filter p) := by
    have sub := (List.sublist_mergeSort trans total inOrder List.filter_sublist).filter p
    rwa [List.filter_filter, List.filter_congr fun a _ => Bool.and_self (p a)] at sub
  have size : ((xs.mergeSort le).filter p).length = (xs.filter p).length :=
    ((List.mergeSort_perm xs le).filter p).length_eq
  exact (sub.eq_of_length size.symm).symm

/-- Elements in order that have a property from the front up to some element come first. -/
lemma eq_filter_append {α : Type} {R : α → α → Prop} {l : List α} {p : α → Bool}
    (h : l.Pairwise R) (down : ∀ x ∈ l, ∀ y ∈ l, R x y → p y = true → p x = true) :
    l = l.filter p ++ l.filter (fun x => !p x) := by
  induction l with
  | nil => rfl
  | cons x l ih =>
    obtain ⟨first, later⟩ := List.pairwise_cons.1 h
    have rest := ih later fun y hy z hz =>
      down y (List.mem_cons_of_mem _ hy) z (List.mem_cons_of_mem _ hz)
    by_cases here : p x = true
    · simp [here, ← rest]
    · have none : l.filter p = [] := List.filter_eq_nil_iff.2 fun y hy there =>
        here (down x List.mem_cons_self y (List.mem_cons_of_mem _ hy) (first y hy) there)
      have all : l.filter (fun x => !p x) = l := by rw [none] at rest; exact rest.symm
      simp [here, none, all]

end MethodLift

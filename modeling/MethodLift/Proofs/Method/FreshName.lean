import Mathlib
import MethodLift.Method.FreshName

/-!
# Fresh names are free

The search for a fresh name is bounded, and it gives up with a name that is taken.  It never gets
that far: names with different numbers are different, so of one more candidate than there are taken
names, one is free (`exists_free`).  What is found is the first free name (`firstFree_freshName`), and
there is only one such name.
-/

namespace MethodLift

variable {taken : String → Bool} {names : List String} {base separator : String} {bound n : ℕ}

/-- Different numbers make different names. -/
lemma numbered_injective {i j : ℕ} (h : numbered base separator i = numbered base separator j) :
    i = j :=
  Nat.repr_injective ((String.append_right_inj (base ++ separator)).1 h)

/-- The search finds the first free candidate if there is a free one. -/
lemma freshFrom_first (h : ∃ k < bound, taken (numbered base separator (n + k)) = false) :
    ∃ k, freshFrom taken base separator bound n = numbered base separator (n + k)
      ∧ taken (numbered base separator (n + k)) = false
      ∧ ∀ j < k, taken (numbered base separator (n + j)) = true := by
  induction bound generalizing n with
  | zero =>
    obtain ⟨k, less, -⟩ := h
    exact absurd less (Nat.not_lt_zero k)
  | succ bound ih =>
    rw [freshFrom]
    split
    next occupied =>
      obtain ⟨k, less, free⟩ := h
      -- the first candidate is taken, so the free one is a later one
      have later : k ≠ 0 := by
        rintro rfl
        rw [Nat.add_zero, occupied] at free
        nomatch free
      have shift (j : ℕ) : n + 1 + j = n + (j + 1) := by omega
      have rest : n + 1 + (k - 1) = n + k := by omega
      obtain ⟨i, found, free, passed⟩ := ih ⟨k - 1, by omega, rest ▸ free⟩
      rw [shift] at found free
      refine ⟨i + 1, found, free, fun j less => ?_⟩
      cases j with
      | zero => exact occupied
      | succ j =>
        rw [← shift]
        exact passed j (Nat.lt_of_succ_lt_succ less)
    next free => exact ⟨0, rfl, Bool.not_eq_true _ ▸ free, nofun⟩

/-- Among one more candidate than there are taken names, one is free. -/
lemma exists_free (h : ∀ name, taken name = true → name ∈ names) (few : names.length ≤ bound) :
    ∃ k < bound + 1, taken (numbered base separator (n + k)) = false := by
  by_contra none
  have occupied : ∀ k < bound + 1, taken (numbered base separator (n + k)) = true := by
    intro k less
    by_contra free
    exact none ⟨k, less, Bool.not_eq_true _ ▸ free⟩
  set candidates := (List.range (bound + 1)).map fun k => numbered base separator (n + k)
  have distinct : candidates.Nodup := by
    refine List.Nodup.map ?_ List.nodup_range
    intro i j same
    exact Nat.add_left_cancel (numbered_injective same)
  have given : candidates ⊆ names := by
    intro name mem
    obtain ⟨k, less, rfl⟩ := List.mem_map.1 mem
    exact h _ (occupied k (List.mem_range.1 less))
  have count : candidates.length ≤ names.length := (List.subperm_of_subset distinct given).length_le
  have length : candidates.length = bound + 1 := by simp [candidates]
  omega

/-- The first one of a name and of the same name with the numbers one, two and so on that is not
taken. -/
inductive FirstUntaken (taken : String → Bool) (separator base : String) : String → Prop
  | itself (free : taken base = false) : FirstUntaken taken separator base base
  | suffixed {n : ℕ} (occupied : taken base = true) (positive : 1 ≤ n)
    (free : taken (numbered base separator n) = false)
    (least : ∀ k, 1 ≤ k → k < n → taken (numbered base separator k) = true) :
    FirstUntaken taken separator base (numbered base separator n)

lemma FirstUntaken.free {name : String} (h : FirstUntaken taken separator base name) :
    taken name = false := by
  cases h with
  | itself free => exact free
  | suffixed _ _ free _ => exact free

/-- The search for a fresh name ends with the first one that is not taken, if the bound is at least
the number of names that are. -/
theorem firstUntaken_freshName (h : ∀ name, taken name = true → name ∈ names)
    (few : names.length ≤ bound) :
    FirstUntaken taken separator base (freshName taken bound base separator) := by
  rw [freshName]
  split
  next occupied =>
    obtain ⟨k, found, free, passed⟩ := freshFrom_first (n := 1) (exists_free h few)
    rw [found]
    refine .suffixed occupied (Nat.le_add_right 1 k) free fun j positive less => ?_
    have same : 1 + (j - 1) = j := by omega
    rw [← same]
    exact passed (j - 1) (by omega)
  next free => exact .itself (Bool.not_eq_true _ ▸ free)

/-- A fresh name is free, if the bound is at least the number of names that are taken. -/
theorem freshName_free (h : ∀ name, taken name = true → name ∈ names)
    (few : names.length ≤ bound) : taken (freshName taken bound base separator) = false :=
  (firstUntaken_freshName h few).free

/-! ## The first free name -/

/-- The first free one of a name and of the same name with the numbers one, two and so on. -/
inductive FirstFree (used : List String) (base : String) : String → Prop
  | itself (free : base ∉ used) : FirstFree used base base
  | suffixed {n : ℕ} (taken : base ∈ used) (positive : 1 ≤ n) (free : numbered base "" n ∉ used)
    (least : ∀ k, 1 ≤ k → k < n → numbered base "" k ∈ used) :
    FirstFree used base (numbered base "" n)

namespace FirstFree

variable {used : List String} {name other : String}

lemma notMem (h : FirstFree used base name) : name ∉ used := by
  cases h with
  | itself free => exact free
  | suffixed _ _ free _ => exact free

/-- There is only one. -/
theorem unique (h : FirstFree used base name) (h' : FirstFree used base other) : name = other := by
  cases h with
  | itself free =>
    cases h' with
    | itself => rfl
    | suffixed taken => exact absurd taken free
  | @suffixed n taken positive free least =>
    cases h' with
    | itself free' => exact absurd taken free'
    | @suffixed k _ positive' free' least' =>
      rcases Nat.lt_trichotomy n k with less | rfl | less
      · exact absurd (least' n positive less) free
      · rfl
      · exact absurd (least k positive' less) free'

/-- It is the name that was asked for, with nothing but digits behind it. -/
lemma exists_digits (h : FirstFree used base name) :
    ∃ digits : List Char, name.toList = base.toList ++ digits
      ∧ ∀ c ∈ digits, c.isDigit = true := by
  cases h with
  | itself => exact ⟨[], (List.append_nil _).symm, nofun⟩
  | @suffixed n =>
    refine ⟨n.repr.toList, by simp [numbered], fun c hc => ?_⟩
    rw [Nat.toList_repr] at hc
    exact Nat.isDigit_of_mem_toDigits (by decide) (by decide) hc

end FirstFree

/-- The search for a fresh name ends with the first free one, whatever names are taken. -/
theorem firstFree_freshName (used : List String) (base : String) :
    FirstFree used base (freshName used.contains used.length base "") := by
  have untaken {name : String} (h : used.contains name = false) : name ∉ used :=
    fun mem => Bool.false_ne_true (h ▸ List.contains_iff_mem.2 mem)
  have first : FirstUntaken used.contains "" base
      (freshName used.contains used.length base "") :=
    firstUntaken_freshName (fun _ => List.contains_iff_mem.1) (Nat.le_refl _)
  generalize freshName used.contains used.length base "" = name at first ⊢
  cases first with
  | itself free => exact .itself (untaken free)
  | suffixed occupied positive free least =>
    exact .suffixed (List.contains_iff_mem.1 occupied) positive (untaken free)
      fun k positive less => List.contains_iff_mem.1 (least k positive less)

/-- Names that were allocated one after the other, each the first free one when it was. -/
inductive Allocated (base : String) : List String → List String → Prop
  | nil {used : List String} : Allocated base used []
  | cons {used names : List String} {name : String} (first : FirstFree used base name)
    (rest : Allocated base (name :: used) names) : Allocated base used (name :: names)

namespace Allocated

variable {used : List String} {name : String}

/-- One name more. -/
lemma concat (h : Allocated base used names)
    (last : FirstFree (names.reverse ++ used) base name) :
    Allocated base used (names ++ [name]) := by
  induction h with
  | nil => exact .cons last .nil
  | cons first rest ih =>
    rw [List.reverse_cons, List.append_assoc] at last
    exact .cons first (ih last)

/-- No name was taken in the beginning. -/
lemma notMem (h : Allocated base used names) : ∀ name ∈ names, name ∉ used := by
  induction h with
  | nil => exact List.forall_mem_nil _
  | cons first rest ih =>
    refine List.forall_mem_cons.2 ⟨first.notMem, fun name mem inUsed => ?_⟩
    exact ih name mem (List.mem_cons_of_mem _ inUsed)

/-- No name was allocated twice. -/
lemma nodup (h : Allocated base used names) : names.Nodup := by
  induction h with
  | nil => exact .nil
  | cons first rest ih =>
    exact List.nodup_cons.2 ⟨fun again => rest.notMem _ again List.mem_cons_self, ih⟩

/-- All names are the one that was asked for, with nothing but digits behind it. -/
lemma exists_digits (h : Allocated base used names) : ∀ name ∈ names,
    ∃ digits : List Char, name.toList = base.toList ++ digits
      ∧ ∀ c ∈ digits, c.isDigit = true := by
  induction h with
  | nil => exact List.forall_mem_nil _
  | cons first rest ih => exact List.forall_mem_cons.2 ⟨first.exists_digits, ih⟩

end Allocated

end MethodLift

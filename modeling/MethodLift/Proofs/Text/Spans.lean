import Mathlib
import MethodLift.Text.Span

/-!
# How spans lie

Of two stretches of a text one can contain the other, or they lie apart.  A stretch with some text
in it cannot be inside one of two that lie apart and overlap the other.
-/

namespace MethodLift.Span

variable {a b c : Span}

/-- One stretch of text ends before the other one begins. -/
def Apart (a b : Span) : Prop := a.stop ≤ b.start ∨ b.stop ≤ a.start

lemma Apart.symm (h : a.Apart b) : b.Apart a := Or.symm h

lemma contains_iff : a.contains b = true ↔ a.start ≤ b.start ∧ b.stop ≤ a.stop := by
  rw [contains, Bool.and_eq_true, decide_eq_true_eq, decide_eq_true_eq]

lemma contains_trans (h : a.contains b = true) (h' : b.contains c = true) :
    a.contains c = true := by
  rw [contains_iff] at *
  omega

lemma isEmpty_eq_false : a.isEmpty = false ↔ a.start < a.stop := by
  rw [isEmpty, decide_eq_false_iff_not, not_le]

lemma isEmpty_point (offset : ℕ) : (point offset).isEmpty = true :=
  decide_eq_true (Nat.le_refl offset)

/-- What covers some text is not apart from it. -/
lemma Apart.not_contains (h : a.Apart b) (nonempty : b.start < b.stop) :
    a.contains b = false := by
  rw [← Bool.not_eq_true, contains_iff]
  rcases h with h | h
  · omega
  · omega

/-- What is inside one of two spans that lie apart is apart from the other. -/
lemma Apart.of_contains (h : a.Apart b) (inside : b.contains c = true) : a.Apart c := by
  rw [contains_iff] at inside
  exact h.imp (fun h => h.trans inside.1) inside.2.trans

end MethodLift.Span

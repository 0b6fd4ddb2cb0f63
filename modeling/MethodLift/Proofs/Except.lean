import Mathlib

/-!
# Steps that can fail

What a result of a sequence of steps says about the steps: each of them gave a result.  A loop over
a list keeps what each of its rounds keeps.
-/

namespace MethodLift

variable {ε α β : Type}

/-- A sequence of two steps gives a result exactly if the first one does and the second one does
from there. -/
theorem bind_eq_ok {x : Except ε α} {f : α → Except ε β} {b : β} :
    x >>= f = .ok b ↔ ∃ a, x = .ok a ∧ f a = .ok b := by
  cases x with
  | error e => exact ⟨nofun, nofun⟩
  | ok a => exact ⟨fun h => ⟨a, rfl, h⟩, fun ⟨_, ha, h⟩ => by cases ha; exact h⟩

theorem map_eq_ok {x : Except ε α} {f : α → β} {b : β} :
    f <$> x = .ok b ↔ ∃ a, x = .ok a ∧ f a = b := by
  cases x with
  | error e => exact ⟨nofun, nofun⟩
  | ok a => exact ⟨fun h => ⟨a, rfl, Except.ok.inj h⟩, fun ⟨_, ha, h⟩ => by cases ha; exact congrArg _ h⟩

theorem exists_of_isOk {x : Except ε α} (h : x.isOk = true) : ∃ a, x = .ok a := by
  cases x with
  | error e => nomatch h
  | ok a => exact ⟨a, rfl⟩

theorem toOption_eq_some {x : Except ε α} {a : α} : x.toOption = some a ↔ x = .ok a := by
  cases x with
  | error e => exact ⟨nofun, nofun⟩
  | ok b => exact ⟨fun h => congrArg _ (Option.some.inj h), fun h => congrArg _ (Except.ok.inj h)⟩

/-- The last round of a loop starts where the rounds before it ended. -/
theorem foldlM_concat_eq_ok {step : β → α → Except ε β} {xs : List α} {x : α} {b c : β} :
    (xs ++ [x]).foldlM step b = .ok c ↔ ∃ b', xs.foldlM step b = .ok b' ∧ step b' x = .ok c := by
  rw [List.foldlM_append, bind_eq_ok]
  refine exists_congr fun b' => and_congr_right fun _ => ?_
  rw [List.foldlM_cons, bind_eq_ok]
  exact ⟨fun ⟨_, stepped, same⟩ => Except.ok.inj same ▸ stepped, fun stepped => ⟨c, stepped, rfl⟩⟩

/-- A sequence of two steps fails where the first one does, or where the second one does from
there. -/
theorem bind_eq_error {x : Except ε α} {f : α → Except ε β} {e : ε} :
    x >>= f = .error e ↔ x = .error e ∨ ∃ a, x = .ok a ∧ f a = .error e := by
  cases x with
  | error e' => exact ⟨fun h => .inl (congrArg _ (Except.error.inj h)),
      fun h => h.elim (fun h => congrArg _ (Except.error.inj h)) nofun⟩
  | ok a => exact ⟨fun h => .inr ⟨a, rfl, h⟩, fun h => h.elim nofun fun ⟨_, ha, h⟩ => by
      cases ha
      exact h⟩

/-- A loop that fails does so in one of its rounds, and the rounds before it gave a result. -/
theorem foldlM_eq_error {step : β → α → Except ε β} {xs : List α} {b : β} {e : ε}
    (h : xs.foldlM step b = .error e) : ∃ before x behind b', xs = before ++ x :: behind
      ∧ before.foldlM step b = .ok b' ∧ step b' x = .error e := by
  induction xs generalizing b with
  | nil => nomatch h
  | cons x xs ih =>
    rw [List.foldlM_cons] at h
    rcases bind_eq_error.1 h with failed | ⟨b', first, later⟩
    · exact ⟨[], x, xs, b, rfl, rfl, failed⟩
    · obtain ⟨before, y, behind, b'', rfl, ran, failed⟩ := ih later
      refine ⟨x :: before, y, behind, b'', rfl, ?_, failed⟩
      rw [List.foldlM_cons]
      exact bind_eq_ok.2 ⟨b', first, ran⟩

/-- What every round of a loop keeps, from a state in which it holds, holds of the result. -/
theorem foldlM_invariant {step : β → α → Except ε β} {P : β → Prop} {xs : List α} {b c : β}
    (start : P b) (keeps : ∀ b x b', x ∈ xs → P b → step b x = .ok b' → P b')
    (h : xs.foldlM step b = .ok c) : P c := by
  induction xs generalizing b with
  | nil =>
    obtain rfl := Except.ok.inj h
    exact start
  | cons x xs ih =>
    rw [List.foldlM_cons] at h
    obtain ⟨b', first, later⟩ := bind_eq_ok.1 h
    have after : P b' := keeps b x b' List.mem_cons_self start first
    exact ih after (fun b y b' hy => keeps b y b' (List.mem_cons_of_mem _ hy)) later

/-- A loop gives the same result if each of its rounds does. -/
theorem foldlM_mono {step step' : β → α → Except ε β} {xs : List α} {b c : β}
    (same : ∀ x ∈ xs, ∀ b b', step b x = .ok b' → step' b x = .ok b')
    (h : xs.foldlM step b = .ok c) : xs.foldlM step' b = .ok c := by
  induction xs generalizing b with
  | nil => exact h
  | cons x xs ih =>
    rw [List.foldlM_cons] at h ⊢
    obtain ⟨b', first, later⟩ := bind_eq_ok.1 h
    exact bind_eq_ok.2 ⟨b', same x List.mem_cons_self _ _ first,
      ih (fun y hy => same y (List.mem_cons_of_mem _ hy)) later⟩

end MethodLift

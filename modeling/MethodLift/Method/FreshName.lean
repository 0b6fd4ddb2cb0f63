/-!
# Fresh names

A name that is taken gets the smallest number behind it, counted from one, that makes it free.  The
search is bounded by the number of names that can be taken, which one more candidate than that
exceeds; so the bound never shows.
-/

namespace MethodLift

/-- A name with a number behind it. -/
def numbered (base separator : String) (n : Nat) : String := base ++ separator ++ toString n

/-- The first free one of the names with the numbers `n`, `n + 1` and so on, among `bound` of
them. -/
def freshFrom (taken : String → Bool) (base separator : String) : Nat → Nat → String
  | 0, _ => base
  | bound + 1, n =>
    if taken (numbered base separator n) then freshFrom taken base separator bound (n + 1)
    else numbered base separator n

/-- The name itself if it is free, and else with the smallest number that makes it free; `bound` is
at least the number of names that are taken. -/
def freshName (taken : String → Bool) (bound : Nat) (base separator : String) : String :=
  if taken base then freshFrom taken base separator (bound + 1) 1 else base

end MethodLift

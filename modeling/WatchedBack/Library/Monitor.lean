import Mathlib

/-! An edge-triggered condition. An observation says that the condition holds, that
it does not, or nothing; what counts is the latest one that says something. -/

namespace Monitor

/-- The latest observation that says something. -/
def latest (obs : List (Option Bool)) : Option Bool :=
  obs.foldl (fun seen o => o.or seen) none

@[simp] theorem latest_nil : latest [] = none := rfl

@[simp] theorem latest_concat (obs : List (Option Bool)) (o : Option Bool) :
    latest (obs ++ [o]) = o.or (latest obs) := by
  simp [latest]

end Monitor

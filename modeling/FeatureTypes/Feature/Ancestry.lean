import FeatureTypes.Feature.Table

/-!
# Ancestry

A feature inherits from itself, from its parents, and from what these inherit
from.  The parents may form cycles.
-/

namespace FeatureTypes.FeatureTable

/-- The number of parents over all features. -/
def parentCount (table : FeatureTable) : Nat :=
  (table.features.toList.flatMap Feature.parents).length

/-- Whether one of the `pending` features or one of their ancestors outside
`seen` has the parent `ancestor`, looking at no more than `budget` features. -/
def hasAncestorWithin (table : FeatureTable) (ancestor : FeatureId) :
    (budget : Nat) → (pending seen : List FeatureId) → Except Failure Bool
  | _, [], _ => .ok false
  | 0, _ :: _, _ => .error .depthExceeded
  | budget + 1, current :: pending, seen =>
    if current ∈ seen then table.hasAncestorWithin ancestor budget pending seen
    else do
      let above := (← table.get current).parents.map Parent.ancestor
      if ancestor ∈ above then return true
      table.hasAncestorWithin ancestor budget (above ++ pending) (current :: seen)

/-- Whether `heir` is `ancestor` or inherits from it.  Each feature is expanded
once, so no more features become pending than there are parents in the table,
besides `heir` itself. -/
def inheritsFrom (table : FeatureTable) (heir ancestor : FeatureId) : Except Failure Bool :=
  if heir = ancestor then .ok true
  else table.hasAncestorWithin ancestor (table.parentCount + 1) [heir] []

end FeatureTypes.FeatureTable

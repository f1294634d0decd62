import FeatureTypes.Checker.Transform

/-!
# Enclosing instances

The type of an enclosing instance becomes known once the target of a call is:
it is the target's type, or the outer type of the target, and so on outwards,
at the first level whose feature inherits from the feature in question.
-/

namespace FeatureTypes.Checker

/-- The feature whose instances have the type `level`.  A formal is seen through
its constraint. -/
def levelFeature? (level : TypeId) : CheckM (Option FeatureId) := do
  match ← node level with
  | .formal id _ =>
    let seen := (← constraint? id).getD level
    readTypes (·.feature? seen)
  | .applied id _ _ _ _ => return some id
  | _ => return none

/-- Whether the instances of the type `level` are instances of `id`. -/
def levelInherits (level : TypeId) (id : FeatureId) : CheckM Bool := do
  match ← levelFeature? level with
  | some heir => readFeatures (·.inheritsFrom heir id)
  | none => return false

/-- Settles enclosing instances of the feature of `level`, and types that
mention none. -/
def replaceThisByLevelAt (level : TypeId) (ty : TypeId) : CheckM (Option TypeId) := do
  if !(← readTypes (·.mentionsThis ty)) then return some ty
  match ← node ty with
  | .applied id _ _ _ true => if ← levelInherits level id then return some level else return none
  | _ => return none

/-- Replaces the enclosing instances of the feature of `level` by `level`. -/
def replaceThisByLevel (level : TypeId) (ty : TypeId) : CheckM TypeId :=
  transform (replaceThisByLevelAt level) ty

/-- Replaces enclosing instances by `level` and its outer types, at most `depth`
of them, from the inside out. -/
def replaceThisWithin : (depth : Nat) → (level ty : TypeId) → CheckM TypeId
  | 0, _, _ => throw .depthExceeded
  | depth + 1, level, ty => do
    if !(← readTypes (·.mentionsThis ty)) then return ty
    let ty ← replaceThisByLevel level ty
    match ← readTypes (·.outer? level) with
    | some outer => replaceThisWithin depth outer ty
    | none => return ty

/-- The type `ty` as seen from a call on `target`.  An outer type has a smaller
number than the type itself, so `target` has at most `target.index` of them
around it. -/
def replaceThis (ty target : TypeId) : CheckM TypeId :=
  replaceThisWithin (target.index + 1) target ty

end FeatureTypes.Checker

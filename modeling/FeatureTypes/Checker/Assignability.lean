import FeatureTypes.Checker.Choice
import FeatureTypes.Checker.Companion

/-!
# Assignability

A value of one type may be assigned to another type if the types are equal, if
both are references and an ancestor of the one may be assigned to the other, or
if the other is a choice with a summand that takes it.  The error type and the
undefined type take and give everything, and a value of type void never comes to
be.

Constraints are met more easily: here the feature of the actual has to inherit
from that of the constraint.
-/

namespace FeatureTypes.Checker

/-- Whether a type takes and gives everything. -/
def isAbsorbing (ty : TypeId) : Bool :=
  ty = .error || ty = .undefined

/-- The answer of an assignability check, and the names of the types met on the
way to it if these are collected. -/
structure Verdict where
  holds : Bool
  names : List String := []

/-- A check whether a value of type `actual` may be assigned to `target`, which
collects the names of the types it meets if `collecting`. -/
abbrev AssignabilityCheck : Type :=
  (collecting : Bool) → (target actual : TypeId) → CheckM Verdict

/-- The ancestor type `ancestor` of the type `actual` as seen from `actual`,
held through a reference. -/
def ancestorSeenFrom (depth : Nat) (actual ancestor : TypeId) : CheckM TypeId := do
  let ancestor ← substituteViaWithin depth actual ancestor
  let ancestor ← replaceThis ancestor actual
  asRef ancestor

/-- Whether one of the `parents` of the type `actual` may be assigned to
`target`.  When names are collected all parents are visited. -/
def anyParentAssignable (check : AssignabilityCheck) (depth : Nat) (collecting : Bool)
    (target actual : TypeId) : (parents : List Parent) → CheckM Verdict
  | [] => return { holds := false }
  | parent :: rest => do
    let ancestor ← ancestorSeenFrom depth actual parent.ty
    let first ← check collecting target ancestor
    if first.holds && !collecting then return first
    let others ← anyParentAssignable check depth collecting target actual rest
    return { holds := first.holds || others.holds, names := first.names ++ others.names }

/-- Whether ancestors count: `target` is a reference to a known feature, and
`actual` is a reference. -/
def ancestorsCount (types : TypeStore) (target actual : TypeId) : Bool :=
  !types.isFormal target && types.isRef target && types.isRef actual

/-- Whether a value of type `actual` may be assigned to `target` because ancestors
count and one of them may. -/
def ancestorAssignable (check : AssignabilityCheck) (depth : Nat) (collecting : Bool)
    (target actual : TypeId) : CheckM Verdict := do
  if !(← readTypes (ancestorsCount · target actual)) then return { holds := false }
  match ← node actual with
  | .formal id _ =>
    match ← constraint? id with
    | none => return { holds := false }
    | some constraint =>
      let boxed ← asRef constraint
      if boxed = actual then return { holds := false }
      return { holds := (← check false target boxed).holds }
  | .applied id _ _ _ _ =>
    anyParentAssignable check depth collecting target actual (← feature id).parents
  | _ => return { holds := false }

/-- Whether a value of type `actual` may be assigned to one of the `summands`. -/
def anySummandAssignable (check : AssignabilityCheck) (actual : TypeId) :
    (summands : List TypeId) → CheckM Bool
  | [] => return false
  | summand :: rest => do
    if (← check false summand actual).holds then return true
    anySummandAssignable check actual rest

/-- Whether `target` is a choice by value that takes a value of type `actual`. -/
def choiceAssignable (check : AssignabilityCheck) (depth : Nat) (target actual : TypeId) :
    CheckM Bool := do
  if ← readTypes (·.isRef target) then return false
  match ← summandsWithin? depth target with
  | none => return false
  | some summands => anySummandAssignable check actual summands

/-- The name of the type `ty`, if names are collected. -/
def collectedName (collecting : Bool) (ty : TypeId) : CheckM (List String) := do
  if collecting then return [← display ty] else return []

/-- One step of an assignability check, with `check` for the types further up. -/
def assignableStep (check : AssignabilityCheck) (depth : Nat) : AssignabilityCheck :=
  fun collecting target actual => do
    let names ← collectedName collecting actual
    let target ← dropThisFormals target
    let actual ← dropThisFormals actual
    if target = actual ∨ actual = .void ∨ isAbsorbing target ∨ isAbsorbing actual then
      return { holds := true, names }
    let above ← ancestorAssignable check depth collecting target actual
    let names := names ++ above.names
    if above.holds then return { holds := true, names }
    return { holds := ← choiceAssignable check depth target actual, names }

/-- An assignability check with calls nested at most `depth` deep. -/
def assignableWithin : (depth : Nat) → AssignabilityCheck
  | 0, _, _, _ => throw .depthExceeded
  | depth + 1, collecting, target, actual =>
    assignableStep (assignableWithin depth) depth collecting target actual

/-- Whether a value of type `actual` may be assigned to `target`. -/
def isAssignable (target actual : TypeId) : CheckM Bool :=
  withinLimit fun depth => return (← assignableWithin depth false target actual).holds

/-- Adds a name to an ascending list of distinct names. -/
def insertName (name : String) : List String → List String
  | [] => [name]
  | first :: rest =>
    if name < first then name :: first :: rest
    else if name = first then first :: rest
    else first :: insertName name rest

/-- Whether a value of type `actual` may be assigned to `target`, and `names`
together with the names of the types met on the way.  Names are kept in
ascending order, each once. -/
def isAssignableCollecting (target actual : TypeId) (names : List String) :
    CheckM (Bool × List String) :=
  withinLimit fun depth => do
    let verdict ← assignableWithin depth true target actual
    return (verdict.holds, verdict.names.foldl (fun names name => insertName name names) names)

/-- `isDirectlyAssignable` with calls nested at most `depth` deep. -/
def directlyAssignableWithin (depth : Nat) (target actual : TypeId) : CheckM Bool := do
  if ← isChoice target then return target = actual
  return (← assignableWithin depth false target actual).holds

/-- Whether a value of type `actual` may be assigned to `target` without being
wrapped into a choice. -/
def isDirectlyAssignable (target actual : TypeId) : CheckM Bool :=
  withinLimit fun depth => directlyAssignableWithin depth target actual

/-- Whether a value of type `actual` may be assigned to `target`, or an error in
one of the types makes the question moot. -/
def isAssignableOrError (target actual : TypeId) : CheckM Bool := do
  if ← readTypes fun types => types.mentionsError target || types.mentionsError actual then
    return true
  isAssignable target actual

/-! ## Unions -/

/-- The one of two types that takes the values of both, held through references
if need be.  It is undefined if neither does. -/
def union (left right : TypeId) : CheckM TypeId := do
  if left = .error ∨ right = .error then return .error
  if left = .undefined ∨ right = .undefined then return .undefined
  if left = .void then return right
  if right = .void then return left
  if ← isAssignable left right then return left
  if ← isAssignable right left then return right
  if ← isAssignable left (← asRef right) then return left
  if ← isAssignable right (← asRef left) then return right
  return .undefined

/-! ## Constraints -/

/-- Whether two types apply the same feature to equally many arguments. -/
def sameShape (types : TypeStore) (left right : TypeId) : Bool :=
  types.feature? left = types.feature? right && (types.args left).length = (types.args right).length

/-- Whether constraint checks need not look into the types: one of them could
not be typed or is unknown, they are equal, or no value of type `actual` exists. -/
def triviallyMeets (types : TypeStore) (constraint actual : TypeId) : Bool :=
  types.mentionsError constraint || types.mentionsError actual || isAbsorbing constraint
    || isAbsorbing actual || constraint = actual || actual = .void

/-- Whether one of the `parents` of the type `actual`, as seen from it, passes
`check`. -/
def anyParentMeets (check : TypeId → CheckM Bool) (depth : Nat) (actual : TypeId) :
    (parents : List Parent) → CheckM Bool
  | [] => return false
  | parent :: rest => do
    let ancestor ← substituteViaWithin depth actual parent.ty
    if ← check ancestor then return true
    anyParentMeets check depth actual rest

/-- `meetsConstraint` with calls nested at most `depth` deep. -/
def meetsConstraintWithin : (depth : Nat) → (constraint actual : TypeId) → CheckM Bool
  | 0, _, _ => throw .depthExceeded
  | depth + 1, constraint, actual => do
    if ← readTypes (triviallyMeets · constraint actual) then return true
    if ← readTypes (·.isFormal constraint) then return false
    match ← node actual with
    | .formal id _ =>
      match ← constraint? id with
      | none => return false
      | some bound =>
        if bound = actual then return false
        meetsConstraintWithin depth constraint bound
    | .applied id _ _ _ _ =>
      if ← readTypes (sameShape · constraint actual) then return true
      anyParentMeets (meetsConstraintWithin depth constraint) depth actual (← feature id).parents
    | _ => return false

/-- Whether the type `actual` may be passed for a formal with the given
constraint. -/
def meetsConstraint (constraint actual : TypeId) : CheckM Bool :=
  withinLimit fun depth => meetsConstraintWithin depth constraint actual

end FeatureTypes.Checker

import FeatureTypes.Checker.Declaration
import FeatureTypes.Checker.Transform

/-!
# Companions

The companion of a feature holds what is common to its types.  Its first formal
stands for the type at hand; the formals of the feature follow it, one position
further on.  Companions are created when they are first asked for, those of the
features around before the one in question.
-/

namespace FeatureTypes.Checker

/-- The name of the first formal of a companion. -/
def thisFormalName : String := "THIS_TYPE"

/-- Gives `companion` the formals of the feature `origin` behind the one that
stands for the type at hand. -/
def copyFormals (origin companion : FeatureId) (formals : List Formal) : CheckM Unit := do
  let self ← selfType origin
  let _ ← addFormal companion thisFormalName self false {}
  formals.forM fun formal => do
    let constraint ← shiftFormals origin companion 1 formal.constraint
    let _ ← addFormal companion formal.name constraint formal.isOpen formal.span

/-- Makes `companion` inherit from the type root, if there is one. -/
def inheritTypeRoot (companion : FeatureId) : CheckM Unit := do
  match ← typeRoot? with
  | none => return
  | some root => declareParent companion root []

/-- Creates the companion of `origin` inside `outer`. -/
def createCompanion (origin outer : FeatureId) : CheckM FeatureId := do
  let declared ← feature origin
  let companion ← onFeatures (·.declare (declared.name ++ ".type") outer false (some origin))
  copyFormals origin companion declared.formals
  inheritTypeRoot companion
  modifyFeature origin fun feature => { feature with companion := some companion }
  record (.companionCreated declared.qualifiedName companion)
  return companion

/-- The feature in which the companion of a feature inside `outer` is declared:
the one that `companionOf` gives for `outer`, or else the universe. -/
def companionOuterBy (companionOf : FeatureId → CheckM (Option FeatureId)) (outer : FeatureId) :
    CheckM FeatureId := do
  if (← feature outer).isUniverse then return .universe
  return (← companionOf outer).getD .universe

/-- The companion of a feature with at most `depth` features around it. -/
def companionWithin : (depth : Nat) → (id : FeatureId) → CheckM (Option FeatureId)
  | 0, _ => throw .depthExceeded
  | depth + 1, id => do
    let declared ← feature id
    match declared.companion, declared.outer with
    | some companion, _ => return some companion
    | none, none => return none
    | none, some outer =>
      if declared.isCompanion then return none
      let around ← companionOuterBy (companionWithin depth) outer
      return some (← createCompanion id around)

/-- The companion of a feature, created if it is missing.  The universe and
companions have none.  The features around `id` have smaller numbers, so there
are at most `id.index` of them. -/
def companion? (id : FeatureId) : CheckM (Option FeatureId) :=
  companionWithin (id.index + 1) id

/-! ## The formal for the type at hand -/

/-- Replaces the first formal of `companion` by `replacement`. -/
def replaceThisFormalAt (companion : FeatureId) (replacement : FormalId) (ty : TypeId) :
    CheckM (Option TypeId) := do
  if !(← readTypes (·.mentionsFormal ty)) then return some ty
  match ← node ty with
  | .formal id boxed =>
    if id ≠ ⟨companion, 0⟩ then return some ty
    let replaced ← onTypes (·.formal replacement)
    if boxed then return some (← asRef replaced)
    return some replaced
  | _ => return none

/-- Replaces the formal of `companion` for the type at hand by `replacement`
throughout a type. -/
def replaceThisFormal (companion : FeatureId) (replacement : FormalId) (ty : TypeId) :
    CheckM TypeId :=
  transform (replaceThisFormalAt companion replacement) ty

/-- Replaces the first formal of any companion by the type of the enclosing
instance of the feature it belongs to. -/
def dropThisFormalAt (ty : TypeId) : CheckM (Option TypeId) := do
  if !(← readTypes (·.mentionsFormal ty)) then return some ty
  match ← node ty with
  | .formal id _ =>
    if id.index ≠ 0 then return some ty
    match (← feature id.feature).origin with
    | none => return some ty
    | some origin =>
      let self ← selfType origin
      return some (← onTypes (·.asThis self))
  | _ => return none

/-- Replaces every formal for the type at hand by the type of the enclosing
instance that it stands for. -/
def dropThisFormals (ty : TypeId) : CheckM TypeId :=
  transform dropThisFormalAt ty

/-- Turns the formals of features into those of their companions, for `id` and
the features around it, of which there are at most `depth`. -/
def liftFormalsWithin : (depth : Nat) → (id : FeatureId) → (ty : TypeId) → CheckM TypeId
  | 0, _, _ => throw .depthExceeded
  | depth + 1, id, ty => do
    let declared ← feature id
    match declared.outer with
    | none => return ty
    | some outer =>
      let ty ← liftFormalsWithin depth outer ty
      match declared.origin with
      | none => return ty
      | some origin => shiftFormals origin id 1 ty

/-- Turns the formals of a feature into those of its companion `id`, and those
of the features around into those of theirs, beginning with the outermost. -/
def liftFormals (id : FeatureId) (ty : TypeId) : CheckM TypeId :=
  liftFormalsWithin (id.index + 1) id ty

end FeatureTypes.Checker

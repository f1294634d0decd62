import FeatureTypes.Checker.Basic

/-!
# Declarations

Declaring features, their formals, ancestors and summands, and making types of
declared features.  The type of a feature declared within another one is seen
inside the type of that other one.
-/

namespace FeatureTypes.Checker

/-- The type inside which the types of `id` are seen: the type that `typeOf`
gives for the feature around `id`, unless that is the universe. -/
def outerTypeBy (typeOf : FeatureId → CheckM TypeId) (id : FeatureId) :
    CheckM (Option TypeId) := do
  match (← feature id).outer with
  | none => return none
  | some outer =>
    if (← feature outer).isUniverse then return none
    return some (← typeOf outer)

/-- The type of a feature as seen from inside, through at most `depth` layers of
features around it. -/
def selfTypeWithin : (depth : Nat) → (id : FeatureId) → CheckM TypeId
  | 0, _ => throw .depthExceeded
  | depth + 1, id => do
    let declared ← feature id
    let args ← declared.formals.mapM fun formal => onTypes (·.formal formal.id)
    let outer ← outerTypeBy (selfTypeWithin depth) id
    onTypes (·.applied id args outer declared.isRef)

/-- The type of a feature as seen from inside: the feature applied to its own
formals.  The features around it have smaller numbers, so there are at most
`id.index` of them. -/
def selfType (id : FeatureId) : CheckM TypeId :=
  selfTypeWithin (id.index + 1) id

/-- The feature `id` applied to `args`, inside the type that the feature around
it has from inside. -/
def instantiate (id : FeatureId) (args : List TypeId) : CheckM TypeId := do
  let declared ← feature id
  let outer ← outerTypeBy selfType id
  onTypes (·.applied id args outer declared.isRef)

/-- The type of a feature without formals. -/
def simpleType (id : FeatureId) : CheckM TypeId := do
  if !(← feature id).formals.isEmpty then throw .formalsPresent
  instantiate id []

/-! ## Declaring -/

/-- Declares a feature, in the universe unless `outer` says otherwise. -/
def declareFeature (name : String) (outer : Option FeatureId) (isRef : Bool) : CheckM FeatureId :=
  onFeatures (·.declare name (outer.getD .universe) isRef none)

/-- Adds a formal to `feature`. -/
def addFormal (feature : FeatureId) (name : String) (constraint : TypeId) (isOpen : Bool)
    (span : Span) : CheckM FormalId :=
  onFeatures (·.addFormal feature name constraint isOpen span)

/-- Adds a formal to `feature`; its type is the result. -/
def declareFormal (feature : FeatureId) (name : String) (constraint : TypeId) (isOpen : Bool)
    (span : Span) : CheckM TypeId := do
  let id ← addFormal feature name constraint isOpen span
  onTypes (·.formal id)

/-- Makes `heir` inherit from `ancestor` applied to `actuals`. -/
def declareParent (heir ancestor : FeatureId) (actuals : List TypeId) : CheckM Unit := do
  let ty ← instantiate ancestor actuals
  modifyFeature heir fun feature =>
    { feature with parents := feature.parents ++ [⟨ancestor, actuals, ty⟩] }

/-- Makes a feature a choice among `summands`. -/
def declareChoice (id : FeatureId) (summands : List TypeId) : CheckM Unit :=
  modifyFeature id fun feature => { feature with summands := some summands }

/-- Makes `root` the ancestor of all companions created from now on. -/
def declareTypeRoot (root : FeatureId) : CheckM Unit :=
  modify fun checker => { checker with features := { checker.features with typeRoot := some root } }

end FeatureTypes.Checker

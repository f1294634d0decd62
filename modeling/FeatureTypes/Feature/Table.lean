import FeatureTypes.Failure
import FeatureTypes.Feature.Basic

/-!
# The table of declared features

Features are numbered in order of declaration, beginning with the universe.
Looking up a number that was not handed out fails.
-/

namespace FeatureTypes

/-- All declared features, and the ancestor that every companion gets. -/
structure FeatureTable where
  features : Array Feature
  typeRoot : Option FeatureId := none

namespace FeatureTable

/-- The table that declares nothing but the universe. -/
def initial : FeatureTable where
  features := #[{ name := "universe", qualifiedName := "universe", outer := none, isRef := false }]

/-- The number of declared features. -/
def size (table : FeatureTable) : Nat :=
  table.features.size

/-! ## Queries -/

/-- The feature with number `id`. -/
def get (table : FeatureTable) (id : FeatureId) : Except Failure Feature :=
  match table.features[id.index]? with
  | some feature => .ok feature
  | none => .error .unknownFeature

/-- The formal `id`, if its feature has that many formals. -/
def formal? (table : FeatureTable) (id : FormalId) : Except Failure (Option Formal) := do
  return (← table.get id.feature).formals[id.index]?

/-- The name of the formal `id`, or a question mark if there is none. -/
def formalName (table : FeatureTable) (id : FormalId) : Except Failure String := do
  match ← table.formal? id with
  | some formal => return formal.name
  | none => return "?"

/-- The number of `wanted` among the features from `position` on. -/
def lookupFrom (wanted : String) : (position : Nat) → List Feature → Option FeatureId
  | _, [] => none
  | position, feature :: rest =>
    if feature.qualifiedName = wanted then some ⟨position⟩
    else lookupFrom wanted (position + 1) rest

/-- The first feature with the given qualified name. -/
def lookup (table : FeatureTable) (qualifiedName : String) : Option FeatureId :=
  lookupFrom qualifiedName 0 table.features.toList

/-- The order of two features: by qualified name, then by number. -/
def compare (table : FeatureTable) (left right : FeatureId) : Except Failure Ordering := do
  let leftFeature ← table.get left
  let rightFeature ← table.get right
  return (Ord.compare leftFeature.qualifiedName rightFeature.qualifiedName).then
    (Ord.compare left.index right.index)

/-! ## Declarations -/

/-- The qualified name of a feature called `name` inside `outer`. -/
def qualify (table : FeatureTable) (outer : FeatureId) (name : String) : Except Failure String := do
  if outer = .universe then return name
  return (← table.get outer).qualifiedName ++ "." ++ name

/-- Declares a feature inside `outer`, as the companion of `origin` if that is
given. -/
def declare (table : FeatureTable) (name : String) (outer : FeatureId) (isRef : Bool)
    (origin : Option FeatureId) : Except Failure (FeatureId × FeatureTable) := do
  let qualifiedName ← table.qualify outer name
  let feature : Feature := { name, qualifiedName, outer := some outer, isRef, origin }
  return (⟨table.size⟩, { table with features := table.features.push feature })

/-- Changes the feature `id`. -/
def modify (table : FeatureTable) (id : FeatureId) (edit : Feature → Feature) :
    Except Failure FeatureTable := do
  let feature ← table.get id
  return { table with features := table.features.setIfInBounds id.index (edit feature) }

/-- Adds a formal to `feature`.  Nothing may follow an open formal. -/
def addFormal (table : FeatureTable) (feature : FeatureId) (name : String) (constraint : TypeId)
    (isOpen : Bool) (span : Span) : Except Failure (FormalId × FeatureTable) := do
  let declared ← table.get feature
  if declared.endsOpen then throw .formalAfterOpen
  let id : FormalId := ⟨feature, declared.formals.length⟩
  let formal : Formal := { id, name, isOpen, constraint, span }
  return (id, ← table.modify feature fun declared =>
    { declared with formals := declared.formals ++ [formal] })

end FeatureTable

end FeatureTypes

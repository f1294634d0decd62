import FeatureTypes.Span
import FeatureTypes.Ty.Store

/-!
# Features

A feature is what types are made of: it has a name, a place inside another
feature, formals with constraints, and ancestors.  A feature with summands is a
choice among them.  A feature may have a companion, which holds what is common
to its types rather than to its instances.
-/

namespace FeatureTypes

/-- A formal of a feature.  An open formal stands for any number of actuals. -/
structure Formal where
  id : FormalId
  name : String
  isOpen : Bool
  constraint : TypeId
  span : Span
  deriving Inhabited

/-- One ancestor of a feature, with the actuals for the ancestor's formals and
the ancestor's type as seen from the heir. -/
structure Parent where
  ancestor : FeatureId
  actuals : List TypeId
  ty : TypeId
  deriving Inhabited

/-- A declared feature.  Only the universe has no `outer`.  A companion has the
feature it belongs to as its `origin`. -/
structure Feature where
  name : String
  qualifiedName : String
  outer : Option FeatureId
  isRef : Bool
  formals : List Formal := []
  parents : List Parent := []
  summands : Option (List TypeId) := none
  companion : Option FeatureId := none
  origin : Option FeatureId := none
  deriving Inhabited

namespace Feature

/-- Whether the feature is the root of all features. -/
def isUniverse (feature : Feature) : Bool :=
  feature.outer.isNone

/-- Whether the feature is a choice among summands. -/
def isChoice (feature : Feature) : Bool :=
  feature.summands.isSome

/-- Whether the feature is the companion of another one. -/
def isCompanion (feature : Feature) : Bool :=
  feature.origin.isSome

/-- Whether the last formal is open. -/
def endsOpen (feature : Feature) : Bool :=
  feature.formals.getLast?.any Formal.isOpen

/-- Whether `count` actuals fit the formals.  An open last formal takes any
number of them. -/
def accepts (feature : Feature) (count : Nat) : Bool :=
  if feature.endsOpen then feature.formals.length ≤ count + 1 else count = feature.formals.length

/-- The number of actuals that the formals ask for, in words. -/
def expectedCount (feature : Feature) : String :=
  if feature.endsOpen then "at least " ++ toString (feature.formals.length - 1)
  else toString feature.formals.length

end Feature

end FeatureTypes

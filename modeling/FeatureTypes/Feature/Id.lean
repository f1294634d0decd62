/-!
# Names of features and formals

Features are numbered in order of declaration.  A formal is named by the
feature that declares it and by its position among that feature's formals.
-/

namespace FeatureTypes

/-- The number of a feature. -/
structure FeatureId where
  index : Nat
  deriving DecidableEq, Inhabited

/-- The root of all features, in which every other feature is declared,
directly or within another one. -/
def FeatureId.universe : FeatureId :=
  ⟨0⟩

/-- The formal at position `index` of `feature`. -/
structure FormalId where
  feature : FeatureId
  index : Nat
  deriving DecidableEq, Inhabited

/-- Positions of formals are 32-bit numbers: they stay below this bound. -/
def FormalId.indexBound : Nat :=
  4294967296

end FeatureTypes

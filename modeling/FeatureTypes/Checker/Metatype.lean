import FeatureTypes.Checker.Companion

/-!
# Metatypes

The metatype of a type is the type of that type seen as a value: the companion
of its feature, applied to the type itself and then to its arguments.
-/

namespace FeatureTypes.Checker

/-- The metatype of a type that applies a companion already: the type root. -/
def rootMetatype : CheckM TypeId := do
  match ← typeRoot? with
  | some root => selfType root
  | none =>
    expect .typeRootPresent false
    return .error

/-- The metatype of a type with at most `depth` outer types. -/
def metatypeWithin : (depth : Nat) → (ty : TypeId) → CheckM TypeId
  | 0, _ => throw .depthExceeded
  | depth + 1, ty => do
    match ← node ty with
    | .error => return .error
    | .formal _ _ =>
      if ← hasReports then return .error
      throw .metatypeOfFormal
    | .applied id args outer _ _ =>
      if (← feature id).isUniverse then return ty
      match ← companion? id with
      | none => rootMetatype
      | some companion =>
        let outer ← outer.mapM (metatypeWithin depth)
        onTypes (·.applied companion (ty :: args) outer false)
    | _ => return ty

/-- The metatype of a type.  An outer type has a smaller number than the type
itself, so there are at most `ty.index` of them. -/
def metatype (ty : TypeId) : CheckM TypeId :=
  metatypeWithin (ty.index + 1) ty

end FeatureTypes.Checker

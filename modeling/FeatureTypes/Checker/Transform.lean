import FeatureTypes.Checker.Basic

/-!
# Transforming types

A transformation goes from the root of a type down.  At each layer a visitor either
settles the result or leaves it to be rebuilt from the transformed parts, first
the arguments and then the outer type.  A type whose parts all stay the same is
returned as it is.
-/

namespace FeatureTypes.Checker

/-- The type `ty` with `transform` applied to its parts. -/
def mapParts (transform : TypeId → CheckM TypeId) (ty : TypeId) : CheckM TypeId := do
  match ← node ty with
  | .applied _ args outer _ _ =>
    let args ← args.mapM transform
    let outer ← outer.mapM transform
    onTypes (·.rebuild ty args outer)
  | _ => return ty

/-- Transforms a type of at most `depth` layers. -/
def transformWithin (visit : TypeId → CheckM (Option TypeId)) :
    (depth : Nat) → (ty : TypeId) → CheckM TypeId
  | 0, _ => throw .depthExceeded
  | depth + 1, ty => do
    match ← visit ty with
    | some result => return result
    | none => mapParts (transformWithin visit depth) ty

/-- Transforms a type: `visit` settles the result for a layer, or leaves it to the
parts.  The parts of a type have smaller numbers than the type itself, so it
has at most `ty.index + 1` layers. -/
def transform (visit : TypeId → CheckM (Option TypeId)) (ty : TypeId) : CheckM TypeId :=
  transformWithin visit (ty.index + 1) ty

/-! ## Shifted formals -/

/-- The formal of `target` that lies `offset` positions after `id`. -/
def shiftFormal (target : FeatureId) (offset : Nat) (id : FormalId) : CheckM FormalId := do
  if id.index + offset < FormalId.indexBound then return ⟨target, id.index + offset⟩
  throw .formalIndexOverflow

/-- Settles formals and types without formals. -/
def shiftFormalsAt (source target : FeatureId) (offset : Nat) (ty : TypeId) :
    CheckM (Option TypeId) := do
  if !(← readTypes (·.mentionsFormal ty)) then return some ty
  match ← node ty with
  | .formal id boxed =>
    if id.feature ≠ source then return some ty
    let shifted ← shiftFormal target offset id
    return some (← onTypes (·.intern (.formal shifted boxed)))
  | _ => return none

/-- Replaces each formal of `source` by the formal of `target` that lies
`offset` positions further on. -/
def shiftFormals (source target : FeatureId) (offset : Nat) (ty : TypeId) : CheckM TypeId :=
  transform (shiftFormalsAt source target offset) ty

end FeatureTypes.Checker

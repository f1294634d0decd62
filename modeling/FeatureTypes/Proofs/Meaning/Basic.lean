import FeatureTypes.Feature.Basic
import FeatureTypes.Proofs.Meaning.Fixpoint
import FeatureTypes.Proofs.Store.Flags
import FeatureTypes.Proofs.Ty.Replacement

/-!
# What the operations on types mean

The operations of a checker give numbers, and what they give may depend on a memo table, on
the depth that is allowed and on earlier reports.  Here they are given on trees, as partial
functions that depend on the declared features alone.  A substitution may run in circles;
its meaning is what its equation settles when it is unfolded to some depth.

What the features declare is a signature.  A signature is asked through partial functions,
so that a checker with fewer features gives a part of it.
-/

namespace FeatureTypes

/-! ## Trees -/

namespace Ty

/-- Whether the type is held through a reference. -/
def isRef : Ty → Bool
  | .formal _ boxed => boxed
  | .applied _ _ _ isRef _ => isRef
  | _ => false

/-- The feature that the type applies. -/
def appliedFeature? : Ty → Option FeatureId
  | .applied feature _ _ _ _ => some feature
  | _ => none

/-- The type of the enclosing instance, for an applied feature. -/
def asThis : Ty → Ty
  | .applied feature args outer isRef _ => .applied feature args outer isRef true
  | ty => ty

/-- Whether the type takes and gives everything. -/
def isAbsorbing (ty : Ty) : Bool :=
  ty = .error || ty = .undefined

mutual

/-- Transforms a type from its root down: `visit` settles the result, or leaves it to the
parts. -/
def transform (visit : Ty → Option (Option Ty)) : Ty → Option Ty
  | .applied feature args outer isRef isThis => do
    match ← visit (.applied feature args outer isRef isThis) with
    | some result => return result
    | none =>
      let args ← transformList visit args
      let outer ← transformOption visit outer
      return .applied feature args outer isRef isThis
  | .formal id boxed => return (← visit (.formal id boxed)).getD (.formal id boxed)
  | .error => return (← visit .error).getD .error
  | .void => return (← visit .void).getD .void
  | .undefined => return (← visit .undefined).getD .undefined

def transformList (visit : Ty → Option (Option Ty)) : List Ty → Option (List Ty)
  | [] => return []
  | ty :: rest => return (← transform visit ty) :: (← transformList visit rest)

def transformOption (visit : Ty → Option (Option Ty)) : Option Ty → Option (Option Ty)
  | none => return none
  | some ty => return some (← transform visit ty)

end

end Ty

/-! ## Signatures -/

/-- What a formal declares. -/
structure FormalOutline where
  id : FormalId
  isOpen : Bool
  constraint : Ty

/-- What a parent declares. -/
structure ParentOutline where
  ancestor : FeatureId
  actuals : List Ty
  ty : Ty

/-- What a feature declares, its names and its companion apart. -/
structure Outline where
  outer : Option FeatureId
  isRef : Bool
  origin : Option FeatureId
  formals : List FormalOutline
  parents : List ParentOutline
  summands : Option (List Ty)

/-- What a declaration amounts to, with its types unfolded. -/
def Feature.outline (unfold : TypeId → Ty) (declared : Feature) : Outline where
  outer := declared.outer
  isRef := declared.isRef
  origin := declared.origin
  formals := declared.formals.map fun formal =>
    ⟨formal.id, formal.isOpen, unfold formal.constraint⟩
  parents := declared.parents.map fun parent =>
    ⟨parent.ancestor, parent.actuals.map unfold, unfold parent.ty⟩
  summands := declared.summands.map (List.map unfold)

/-- The declared features, and which of them inherit from which. -/
structure Signature where
  feature : FeatureId → Option Outline
  inherits : (heir ancestor : FeatureId) → Option Bool

namespace Signature

variable (signature : Signature)

/-- The formal `id`, if its feature has that many formals. -/
def formal? (id : FormalId) : Option (Option FormalOutline) :=
  return (← signature.feature id.feature).formals[id.index]?

/-- The constraint of the formal `id`, if it is declared. -/
def constraint? (id : FormalId) : Option (Option Ty) :=
  return (← signature.formal? id).map FormalOutline.constraint

/-! ## Types of features -/

/-- The type inside which the types of `id` are seen. -/
def outerTypeBy (typeOf : FeatureId → Option Ty) (id : FeatureId) : Option (Option Ty) := do
  match (← signature.feature id).outer with
  | none => return none
  | some outer =>
    if (← signature.feature outer).outer.isNone then return none
    return some (← typeOf outer)

/-- The type of a feature as seen from inside, through at most `depth` layers. -/
def selfTypeWithin : (depth : Nat) → (id : FeatureId) → Option Ty
  | 0, _ => none
  | depth + 1, id => do
    let declared ← signature.feature id
    let outer ← signature.outerTypeBy (selfTypeWithin depth) id
    return .applied id (declared.formals.map fun formal => .formal formal.id false) outer
      declared.isRef false

/-- The type of a feature as seen from inside. -/
def selfType (id : FeatureId) : Option Ty :=
  signature.selfTypeWithin (id.index + 1) id

/-- The type of a feature applied to `args`, seen from inside the features around it. -/
def instantiate (id : FeatureId) (args : List Ty) : Option Ty := do
  let declared ← signature.feature id
  let outer ← signature.outerTypeBy signature.selfType id
  return .applied id args outer declared.isRef false

/-! ## Enclosing instances -/

/-- What a formal becomes when formals for the type at hand are dropped. -/
def dropThisFormal (id : FormalId) (boxed : Bool) : Option Ty := do
  if id.index ≠ 0 then return .formal id boxed
  match (← signature.feature id.feature).origin with
  | none => return .formal id boxed
  | some origin => return (← signature.selfType origin).asThis

/-- Settles formals. -/
def dropThisFormalAt : Ty → Option (Option Ty)
  | .formal id boxed => return some (← signature.dropThisFormal id boxed)
  | _ => return none

/-- Replaces every formal for the type at hand by the type of the enclosing instance. -/
def dropThisFormals (ty : Ty) : Option Ty :=
  ty.transform signature.dropThisFormalAt

/-- The feature whose instances have the type `level`. -/
def levelFeature? : (level : Ty) → Option (Option FeatureId)
  | .formal id boxed =>
    return ((← signature.constraint? id).getD (.formal id boxed)).appliedFeature?
  | level => return level.appliedFeature?

/-- Whether the instances of the type `level` are instances of `id`. -/
def levelInherits (level : Ty) (id : FeatureId) : Option Bool := do
  match ← signature.levelFeature? level with
  | some heir => signature.inherits heir id
  | none => return false

/-- Settles enclosing instances of the feature of `level`. -/
def replaceThisByLevelAt (level : Ty) : Ty → Option (Option Ty)
  | .applied id _ _ _ true => return if ← signature.levelInherits level id then some level else none
  | _ => return none

/-- Replaces the enclosing instances of the feature of `level` by `level`. -/
def replaceThisByLevel (level ty : Ty) : Option Ty :=
  ty.transform (signature.replaceThisByLevelAt level)

/-- The type `ty` as seen from a call on `target`: enclosing instances are replaced by
`target` and its outer types, from the inside out. -/
def replaceThis (ty target : Ty) : Option Ty := do
  let ty ← signature.replaceThisByLevel target ty
  match target with
  | .applied _ _ (some outer) _ _ => replaceThis ty outer
  | _ => return ty
termination_by target

/-! ## Substitution -/

/-- The position of the open formal of `owner` that ends the list `ty :: rest`. -/
def trailingOpen? (owner : FeatureId) (ty : Ty) (rest : List Ty) : Option (Option Nat) := do
  match ty, rest with
  | .formal id _, [] =>
    if id.feature ≠ owner then return none
    if (← signature.formal? id).any FormalOutline.isOpen then return some id.index
    return none
  | _, _ => return none

/-- The actual for the formal `id`, if it belongs to `owner`. -/
def substituteFormal (owner : FeatureId) (actuals : List Ty) (id : FormalId) (boxed : Bool) :
    Option Ty := do
  if id.feature ≠ owner then return .formal id boxed
  if (← signature.formal? id).any FormalOutline.isOpen then return .error
  let actual := actuals[id.index]?.getD .error
  return if boxed then actual.asRef else actual

/-- The type `ty`, which applies a feature, with new parts.  A part that cannot be typed makes
the whole so, unless nothing changed. -/
def rebuild (ty : Ty) (newArgs : List Ty) (newOuter : Option Ty) : Ty :=
  match ty with
  | .applied feature args outer isRef isThis =>
    if newArgs = args ∧ newOuter = outer then ty
    else if newOuter = some .error ∨ .error ∈ newArgs then .error
    else .applied feature newArgs newOuter isRef isThis
  | ty => ty

section

variable (substitute : (owner : FeatureId) → (actuals : List Ty) → (target : Ty) → Option Ty)

/-- Substitutes in each element.  An open formal of `owner` at the end gives way to all actuals
from its position on. -/
def substituteEach (owner : FeatureId) (actuals : List Ty) : (list : List Ty) → Option (List Ty)
  | [] => return []
  | ty :: rest => do
    match ← signature.trailingOpen? owner ty rest with
    | some position => return actuals.drop position
    | none =>
      let first ← substitute owner actuals ty
      return first :: (← substituteEach owner actuals rest)

/-- Substitutes in a list.  The formals of `owner` themselves give way to the actuals. -/
def substituteList (owner : FeatureId) (actuals list : List Ty) : Option (List Ty) := do
  let formals := (← signature.feature owner).formals
  if list = formals.map fun formal => .formal formal.id false then return actuals
  signature.substituteEach substitute owner actuals list

/-- The type `ty` as seen from inside the type `self`. -/
def seenFrom (self ty : Ty) : Option Ty := do
  let ty ← signature.replaceThis ty self
  match self with
  | .applied id args outer _ _ =>
    if (← signature.feature id).outer.isNone then return ty
    match outer with
    | none => substitute id args ty
    | some outer =>
      let ty ← seenFrom outer ty
      substitute id args ty
  | _ => return ty
termination_by self

/-- The substituted arguments of `feature`.  For a companion, those behind the first are seen
from inside the first. -/
def settleArgs (feature : FeatureId) (args : List Ty) : Option (List Ty) := do
  if (← signature.feature feature).origin.isNone then return args
  match args with
  | [] => return []
  | self :: rest =>
    let rest ← rest.mapM fun ty =>
      if ty = self then return ty else signature.seenFrom substitute self ty
    return self :: rest

/-- Substitutes first through the parents of `owner`, and then for `owner` itself. -/
def substituteStep (owner : FeatureId) (actuals : List Ty) (target : Ty) : Option Ty := do
  let ty ← (← signature.feature owner).parents.foldlM
    (fun ty parent => substitute parent.ancestor parent.actuals ty) target
  match ty with
  | .formal id boxed => signature.substituteFormal owner actuals id boxed
  | .applied feature args outer _ _ =>
    let newArgs ← signature.substituteList substitute owner actuals args
    let newOuter ← outer.mapM (substitute owner actuals)
    let newArgs ← signature.settleArgs substitute feature newArgs
    return rebuild ty newArgs newOuter
  | _ => return ty

end

/-- Replaces the formals of `owner` and of its ancestors in `target`, given `actuals` for the
formals of `owner`. -/
noncomputable def substitute (owner : FeatureId) (actuals : List Ty) (target : Ty) : Option Ty :=
  solution (fun call (owner, actuals, target) =>
    if !target.mentionsFormal then some target
    else signature.substituteStep (fun owner actuals target => call (owner, actuals, target))
      owner actuals target) (owner, actuals, target)

/-- The type `target`, which may mention formals, as seen from `source`. -/
noncomputable def viewStep (view : (source target : Ty) → Option Ty) (source target : Ty) :
    Option Ty := do
  match source with
  | .formal id _ =>
    match ← signature.constraint? id with
    | none => return target
    | some constraint => if constraint = source then return target else view constraint target
  | .applied id args outer _ _ =>
    let result ← signature.substitute id args target
    match outer with
    | none => return result
    | some outer => view outer result
  | .error => return .error
  | _ => return target

/-- The type `target` as seen from `source`. -/
noncomputable def substituteVia (source target : Ty) : Option Ty :=
  solution (fun call (source, target) =>
    if !target.mentionsFormal then some target
    else signature.viewStep (fun source target => call (source, target)) source target)
    (source, target)

/-- The summands of a choice type, for its arguments and as seen from it. -/
noncomputable def summands? (ty : Ty) : Option (Option (List Ty)) := do
  match ty with
  | .applied id args _ _ _ =>
    match (← signature.feature id).summands with
    | none => return none
    | some declared =>
      let summands ← signature.substituteList signature.substitute id args declared
      return some (← summands.mapM fun summand => signature.replaceThis summand ty)
  | _ => return none

/-- The ancestor type `ancestor` of the type `actual` as seen from `actual`, held through a
reference. -/
noncomputable def ancestorSeenFrom (actual ancestor : Ty) : Option Ty := do
  let ancestor ← signature.substituteVia actual ancestor
  return (← signature.replaceThis ancestor actual).asRef

end Signature

end FeatureTypes

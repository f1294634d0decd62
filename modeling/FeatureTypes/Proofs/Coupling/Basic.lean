import FeatureTypes.Checker.Companion
import FeatureTypes.Checker.Substitution
import Mathlib.Data.List.Forall2
import Mathlib.Data.Option.Defs

/-!
# Coupled runs

Two runs of the checker on corresponding types go through corresponding steps.  A coupling
says what corresponds: in each of its worlds some types of the first checker are the same as
some types of the second, and two operations are coupled if their runs from there
correspond.  The laws of a coupling are about the primitive operations; that the operations
built from them are coupled follows once and for all.
-/

namespace FeatureTypes

/-! ## Corresponding layers and declarations -/

section Related

variable (same : TypeId → TypeId → Prop)

/-- Two layers that differ only in the numbers of their parts, which are the
same. -/
inductive Node.Related : Node → Node → Prop
  | error : Related .error .error
  | void : Related .void .void
  | undefined : Related .undefined .undefined
  | formal (id : FormalId) (boxed : Bool) : Related (.formal id boxed) (.formal id boxed)
  | applied (feature : FeatureId) {args args' : List TypeId} {outer outer' : Option TypeId}
      (isRef isThis : Bool)
      (sameArgs : List.Forall₂ same args args') (sameOuter : Option.Rel same outer outer') :
      Related (.applied feature args outer isRef isThis)
        (.applied feature args' outer' isRef isThis)

/-- Two formals with the same constraint that agree otherwise. -/
structure Formal.Related (formal formal' : Formal) : Prop where
  id_eq : formal'.id = formal.id
  name_eq : formal'.name = formal.name
  isOpen_eq : formal'.isOpen = formal.isOpen
  span_eq : formal'.span = formal.span
  constraint_same : same formal.constraint formal'.constraint

/-- Two parents with the same types. -/
structure Parent.Related (parent parent' : Parent) : Prop where
  ancestor_eq : parent'.ancestor = parent.ancestor
  actuals_same : List.Forall₂ same parent.actuals parent'.actuals
  ty_same : same parent.ty parent'.ty

/-- Two features with the same types that agree otherwise, their companions
apart. -/
structure Feature.Related (declared declared' : Feature) : Prop where
  name_eq : declared'.name = declared.name
  qualifiedName_eq : declared'.qualifiedName = declared.qualifiedName
  outer_eq : declared'.outer = declared.outer
  isRef_eq : declared'.isRef = declared.isRef
  origin_eq : declared'.origin = declared.origin
  formals_related : List.Forall₂ (Formal.Related same) declared.formals declared'.formals
  parents_related : List.Forall₂ (Parent.Related same) declared.parents declared'.parents
  summands_related : Option.Rel (List.Forall₂ same) declared.summands declared'.summands

end Related

section Outcome

variable {World : Type} (later : World → World → Prop) (first second : World → Checker)

/-- What two operations come to, each in its checker of a world: both have results that are
related in a later world, or both fail there for the same reason, or the first nests too deeply. -/
inductive Coupling.Outcome {α β : Type} (world : World) (relation : World → α → β → Prop) :
    EStateM.Result Failure Checker α → EStateM.Result Failure Checker β → Prop
  | ok (next : World) (reached : later world next) {result : α} {result' : β}
      (related : relation next result result') :
      Outcome world relation (.ok result (first next)) (.ok result' (second next))
  | failed (failure : Failure) (next : World) (reached : later world next) :
      Outcome world relation (.error failure (first next)) (.error failure (second next))
  | exhausted (checker : Checker) (outcome : EStateM.Result Failure Checker β) :
      Outcome world relation (.error .depthExceeded checker) outcome

variable {later first second}

/-- The rest may go by how the first operation ran. -/
theorem Coupling.Outcome.bind
    (trans : ∀ {low middle high}, later low middle → later middle high → later low high)
    {α β γ δ : Type} {world : World} {operation : CheckM α} {operation' : CheckM β}
    {relation : World → α → β → Prop}
    (coupled : Outcome later first second world relation (operation.run (first world))
      (operation'.run (second world)))
    {next : α → CheckM γ} {next' : β → CheckM δ} {relation' : World → γ → δ → Prop}
    (further : ∀ world' result result', later world world' →
      operation.run (first world) = .ok result (first world') → relation world' result result' →
        Outcome later first second world' relation' ((next result).run (first world'))
          ((next' result').run (second world'))) :
    Outcome later first second world relation' ((operation >>= next).run (first world))
      ((operation' >>= next').run (second world)) := by
  rw [EStateM.run_bind, EStateM.run_bind]
  generalize outcomeEq : operation.run (first world) = outcome at coupled ⊢
  generalize operation'.run (second world) = outcome' at coupled ⊢
  cases coupled with
  | failed failure next reached => exact .failed failure next reached
  | exhausted checker => exact .exhausted checker _
  | ok world' reached related =>
    have rest := further world' _ _ reached outcomeEq related
    dsimp only
    generalize (next _).run (first world') = outcome at rest ⊢
    generalize (next' _).run (second world') = outcome' at rest ⊢
    cases rest with
    | ok next reached' related' => exact .ok next (trans reached reached') related'
    | failed failure next reached' => exact .failed failure next (trans reached reached')
    | exhausted checker => exact .exhausted checker _

end Outcome

/-- What two runs have in common. -/
structure Coupling where
  World : Type
  later : World → World → Prop
  same : World → TypeId → TypeId → Prop
  stores : World → TypeStore → TypeStore → Prop
  couples : {α β : Type} → World → CheckM α → CheckM β → (World → α → β → Prop) → Prop

namespace Coupling

open Checker

/-- Agreement of results in which no types occur. -/
def Agrees {α : Type} (K : Coupling) : K.World → α → α → Prop :=
  fun _ result result' => result' = result

/-- The laws for operations that build and read types and read features. -/
structure Core (K : Coupling) : Prop where
  later_refl : ∀ world, K.later world world
  later_trans : ∀ {first second third},
    K.later first second → K.later second third → K.later first third
  same_later : ∀ {world world' ty ty'},
    K.same world ty ty' → K.later world world' → K.same world' ty ty'
  same_iff : ∀ {world left left' right right'},
    K.same world left left' → K.same world right right' → (left = right ↔ left' = right')
  same_error : ∀ world, K.same world .error .error
  same_void : ∀ world, K.same world .void .void
  same_undefined : ∀ world, K.same world .undefined .undefined
  layer : ∀ {world types types' ty ty'},
    K.stores world types types' → K.same world ty ty' →
      Node.Related (K.same world) (types.node ty) (types'.node ty') ∧
        types'.flags ty' = types.flags ty
  child_lt : ∀ {world types types' ty ty'},
    K.stores world types types' → K.same world ty ty' →
      (∀ child ∈ (types.node ty).children, child.index < ty.index) ∧
        ∀ child ∈ (types'.node ty').children, child.index < ty'.index
  pure : ∀ {α β : Type} {world} {result : α} {result' : β} {relation : K.World → α → β → Prop},
    relation world result result' → K.couples world (pure result) (pure result') relation
  bind : ∀ {α β γ δ : Type} {world} {operation : CheckM α} {operation' : CheckM β}
    {next : α → CheckM γ} {next' : β → CheckM δ}
    {relation : K.World → α → β → Prop} {relation' : K.World → γ → δ → Prop},
    K.couples world operation operation' relation →
    (∀ world' result result', K.later world world' → relation world' result result' →
      K.couples world' (next result) (next' result') relation') →
    K.couples world (operation >>= next) (operation' >>= next') relation'
  fail : ∀ {α β : Type} {world} (failure : Failure) {relation : K.World → α → β → Prop},
    K.couples world (throw failure) (throw failure) relation
  read : ∀ {α β : Type} {world} {query : TypeStore → α} {query' : TypeStore → β}
    {relation : K.World → α → β → Prop},
    (∀ types types', K.stores world types types' →
      relation world (query types) (query' types')) →
    K.couples world (readTypes query) (readTypes query') relation
  intern : ∀ {world layer layer'}, Node.Related (K.same world) layer layer' →
    K.couples world (onTypes (·.intern layer)) (onTypes (·.intern layer')) K.same
  feature : ∀ {world} (id : FeatureId),
    K.couples world (feature id) (feature id) fun world' => Feature.Related (K.same world')
  inherits : ∀ {world} (heir ancestor : FeatureId),
    K.couples world (readFeatures (·.inheritsFrom heir ancestor))
      (readFeatures (·.inheritsFrom heir ancestor)) K.Agrees
  display : ∀ {world ty ty'}, K.same world ty ty' →
    K.couples world (display ty) (display ty') K.Agrees
  record : ∀ {world} (event event' : Event),
    K.couples world (record event) (record event') K.Agrees

/-- The laws for operations that remember substitutions. -/
structure Engine (K : Coupling) : Prop extends Core K where
  exhausted : ∀ {α β : Type} {world} {operation' : CheckM β} {relation : K.World → α → β → Prop},
    K.couples world (throw .depthExceeded) operation' relation
  limit : ∀ {α β : Type} {world} {operation : Nat → CheckM α} {operation' : Nat → CheckM β}
    {relation : K.World → α → β → Prop},
    (∀ depth, K.couples world (operation depth) (operation' depth) relation) →
    K.couples world (withinLimit operation) (withinLimit operation') relation
  ensureNotOpen : ∀ {world ty ty'}, K.same world ty ty' →
    K.couples world (ensureNotOpen ty) (ensureNotOpen ty') K.Agrees
  expect : ∀ {world} (what : Invariant) (holds : Bool),
    K.couples world (expect what holds) (expect what holds) K.Agrees
  recordEntry : ∀ {world ty ty'} (check : Check), K.same world ty ty' →
    K.couples world (recordEntry check ty) (recordEntry check ty') K.Agrees
  byOwner : ∀ {world depth depth' owner actuals actuals' target target'},
    depth ≤ depth' →
    List.Forall₂ (K.same world) actuals actuals' → K.same world target target' →
    (∀ world', K.later world world' →
      K.couples world' (substituteStep (substituteWithin depth) owner actuals target)
        (substituteStep (substituteWithin depth') owner actuals' target') K.same) →
    K.couples world
      (memoized (recallByOwner ⟨target, owner, actuals⟩)
        (rememberByOwner ⟨target, owner, actuals⟩)
        (substituteStep (substituteWithin depth) owner actuals target))
      (memoized (recallByOwner ⟨target', owner, actuals'⟩)
        (rememberByOwner ⟨target', owner, actuals'⟩)
        (substituteStep (substituteWithin depth') owner actuals' target')) K.same
  viaType : ∀ {world depth depth' source source' target target'},
    depth ≤ depth' →
    K.same world source source' → K.same world target target' →
    (∀ world', K.later world world' →
      K.couples world'
        (viewStep (substituteWithin depth) (substituteViaWithin depth) source target)
        (viewStep (substituteWithin depth') (substituteViaWithin depth') source' target') K.same) →
    K.couples world
      (memoized (recallViaType ⟨source, target⟩) (rememberViaType ⟨source, target⟩)
        (viewStep (substituteWithin depth) (substituteViaWithin depth) source target))
      (memoized (recallViaType ⟨source', target'⟩) (rememberViaType ⟨source', target'⟩)
        (viewStep (substituteWithin depth') (substituteViaWithin depth') source' target')) K.same

/-- The laws for operations that report what they find. -/
structure Reporting (K : Coupling) : Prop extends Engine K where
  report : ∀ {world} (issue : Issue) (span : Span),
    K.couples world (report issue span) (report issue span) K.Agrees

/-- The laws for operations that ask for companions. -/
structure Full (K : Coupling) : Prop extends Reporting K where
  companion : ∀ {world} (id : FeatureId),
    K.couples world (companion? id) (companion? id) K.Agrees
  typeRoot : ∀ {world}, K.couples world typeRoot? typeRoot? K.Agrees
  reported : ∀ {world}, K.couples world hasReports hasReports K.Agrees

end Coupling

end FeatureTypes

import FeatureTypes.Proofs.Checker.Keeps
import FeatureTypes.Proofs.Meaning.Basic

/-!
# Runs and their meaning

A checker follows a signature if all that it declares is in the signature, and it obeys the
signature if what it remembers is right as well.
-/

namespace FeatureTypes

variable {later : Checker} {outerId : Option TypeId}

/-! ## Checkers that obey a signature -/

namespace Checker

/-- What the checker declares is in the signature. -/
structure Follows (checker : Checker) (signature : Signature) : Prop where
  feature_eq : ∀ id declared, checker.features.get id = .ok declared →
    signature.feature id = some (declared.outline checker.types.tree)
  inherits_eq : ∀ heir ancestor answer,
    checker.features.inheritsFrom heir ancestor = .ok answer →
      signature.inherits heir ancestor = some answer

/-- Every remembered result is the one that the signature prescribes. -/
structure MemosMean (checker : Checker) (signature : Signature) : Prop where
  byOwner_means : ∀ (key : SubstitutionKey) (result : TypeId),
    checker.byOwner.entries[key]? = some result →
      ∃ actuals target ty, List.Forall₂ checker.types.Denotes key.actuals actuals ∧
        checker.types.Denotes key.target target ∧ checker.types.Denotes result ty ∧
          signature.substituteStep signature.substitute key.owner actuals target = some ty
  viaType_means : ∀ (key : ViewKey) (result : TypeId),
    checker.viaType.entries[key]? = some result →
      ∃ source target ty, checker.types.Denotes key.source source ∧
        checker.types.Denotes key.target target ∧ checker.types.Denotes result ty ∧
          signature.viewStep signature.substituteVia source target = some ty

/-- The checker follows the signature and remembers nothing else. -/
structure Obeys (checker : Checker) (signature : Signature) : Prop extends checker.WellFormed where
  follows : checker.Follows signature
  memos_mean : checker.options.memoize = true → checker.MemosMean signature

theorem Obeys.sound {checker : Checker} {signature : Signature} (obeys : checker.Obeys signature) :
    checker.Sound := by
  refine ⟨obeys.toWellFormed, fun on => ⟨?_, ?_⟩⟩
  · intro key result found
    obtain ⟨_, _, _, _, _, denotes, _⟩ := (obeys.memos_mean on).byOwner_means key result found
    exact denotes.1
  · intro key result found
    obtain ⟨_, _, _, _, _, denotes, _⟩ := (obeys.memos_mean on).viaType_means key result found
    exact denotes.1

theorem outline_eq_of_extends {types larger : TypeStore} (coherent : types.Coherent)
    (coherent' : larger.Coherent) (extension : types.Extends larger) {id : FeatureId}
    {declared : Feature} (wellFormed : declared.WellFormed types id) :
    declared.outline larger.tree = declared.outline types.tree := by
  have treeEq : ∀ {ty : TypeId}, types.Holds ty → larger.tree ty = types.tree ty :=
    TypeStore.tree_eq_of_extends coherent coherent' extension
  have formalsEq : declared.formals.map (fun formal =>
      (⟨formal.id, formal.isOpen, larger.tree formal.constraint⟩ : FormalOutline)) =
      declared.formals.map fun formal =>
        ⟨formal.id, formal.isOpen, types.tree formal.constraint⟩ := by
    apply List.map_congr_left
    intro formal member
    rw [treeEq (wellFormed.constraint_held formal member)]
  have parentsEq : declared.parents.map (fun parent =>
      (⟨parent.ancestor, parent.actuals.map larger.tree, larger.tree parent.ty⟩ :
        ParentOutline)) =
      declared.parents.map fun parent =>
        ⟨parent.ancestor, parent.actuals.map types.tree, types.tree parent.ty⟩ := by
    apply List.map_congr_left
    intro parent member
    have actualsEq : parent.actuals.map larger.tree = parent.actuals.map types.tree :=
      List.map_congr_left fun actual present =>
        treeEq (wellFormed.actuals_held parent member actual present)
    rw [actualsEq, treeEq (wellFormed.ty_held parent member)]
  have summandsEq : declared.summands.map (List.map larger.tree) =
      declared.summands.map (List.map types.tree) := by
    cases isChoice : declared.summands with
    | none => rfl
    | some summands =>
      rw [Option.map_some, Option.map_some, List.map_congr_left fun summand present =>
        treeEq (wellFormed.summands_held summands isChoice summand present)]
  rw [Feature.outline, formalsEq, parentsEq, summandsEq, Feature.outline]

/-- What is remembered stays right when types are added. -/
theorem MemosMean.of_extends {checker : Checker} {signature : Signature}
    (means : checker.MemosMean signature) (coherent : checker.types.Coherent)
    (coherent' : later.types.Coherent) (extension : checker.types.Extends later.types)
    (byOwnerEq : later.byOwner.entries = checker.byOwner.entries)
    (viaTypeEq : later.viaType.entries = checker.viaType.entries) : later.MemosMean signature := by
  have denotes : ∀ {id : TypeId} {ty : Ty}, checker.types.Denotes id ty →
      later.types.Denotes id ty := fun denotes => denotes.of_extends coherent coherent' extension
  refine ⟨?_, ?_⟩
  · rw [byOwnerEq]
    intro key result found
    obtain ⟨actuals, target, ty, actualsDenote, targetDenotes, resultDenotes, prescribed⟩ :=
      means.byOwner_means key result found
    exact ⟨actuals, target, ty, actualsDenote.imp fun _ _ => denotes, denotes targetDenotes,
      denotes resultDenotes, prescribed⟩
  · rw [viaTypeEq]
    intro key result found
    obtain ⟨source, target, ty, sourceDenotes, targetDenotes, resultDenotes, prescribed⟩ :=
      means.viaType_means key result found
    exact ⟨source, target, ty, denotes sourceDenotes, denotes targetDenotes,
      denotes resultDenotes, prescribed⟩

namespace Obeys

variable {checker : Checker} {signature : Signature} (obeys : checker.Obeys signature)

include obeys

theorem grow (canonical : later.types.Canonical) (extension : checker.types.Extends later.types)
    (featuresEq : later.features = checker.features)
    (memoizeEq : later.options.memoize = checker.options.memoize)
    (byOwnerEq : later.byOwner.entries = checker.byOwner.entries)
    (viaTypeEq : later.viaType.entries = checker.viaType.entries) : later.Obeys signature := by
  have coherent := obeys.types_canonical.toCoherent
  refine ⟨⟨canonical, ?_⟩, ⟨?_, ?_⟩, ?_⟩
  · rw [featuresEq]
    exact obeys.features_wellFormed.of_extends extension
  · rw [featuresEq]
    intro id declared found
    rw [outline_eq_of_extends coherent canonical.toCoherent extension
      (obeys.features_wellFormed id declared found)]
    exact obeys.follows.feature_eq id declared found
  · rw [featuresEq]
    exact obeys.follows.inherits_eq
  · rw [memoizeEq]
    intro on
    exact (obeys.memos_mean on).of_extends coherent canonical.toCoherent extension byOwnerEq
      viaTypeEq

variable (obeys' : later.Obeys signature) (onward : checker.Onward later)

include obeys' onward

theorem denotes {id : TypeId} {ty : Ty} (denotes : checker.types.Denotes id ty) :
    later.types.Denotes id ty :=
  denotes.of_extends obeys.types_canonical.toCoherent obeys'.types_canonical.toCoherent
    onward.types_extend

theorem denotesAll {ids : List TypeId} {tys : List Ty}
    (denote : List.Forall₂ checker.types.Denotes ids tys) :
    List.Forall₂ later.types.Denotes ids tys :=
  denote.imp fun _ _ => obeys.denotes obeys' onward

theorem denotesOption {outer : Option Ty}
    (denotes : Option.Rel checker.types.Denotes outerId outer) :
    Option.Rel later.types.Denotes outerId outer :=
  TypeStore.Denotes.outer_of_extends denotes obeys.types_canonical.toCoherent
    obeys'.types_canonical.toCoherent onward.types_extend

end Obeys

instance enduring_obeys (signature : Signature) : Enduring (·.Obeys signature) where
  wellFormed obeys := obeys.toWellFormed
  grow obeys := obeys.grow

/-! ## Operations that come to a result -/

/-- Where the operation comes to a result, it leaves a checker behind that obeys the
signature, and the result is as `post` says. -/
def Finds {α : Type} (signature : Signature) (checker : Checker) (operation : CheckM α)
    (post : Checker → α → Prop) : Prop :=
  Keeps (·.Obeys signature) checker operation post

variable {signature : Signature} {checker : Checker}

theorem Finds.feature (obeys : checker.Obeys signature) (id : FeatureId) :
    Finds signature checker (feature id) fun after declared =>
      checker = after ∧ checker.features.get id = .ok declared ∧
        signature.feature id = some (declared.outline checker.types.tree) :=
  .readFeatures obeys fun declared found =>
    ⟨rfl, found, obeys.follows.feature_eq id declared found⟩

end Checker

end FeatureTypes

import FeatureTypes.Proofs.Checker.WellFormed
import FeatureTypes.Proofs.Coupling.Lists

/-!
# Shared types

In couplings of checkers that number their types alike, a type is the same as another if
both have the same number, which is stored.
-/

namespace FeatureTypes

/-- Both are the same stored type. -/
def TypeStore.Shares (types : TypeStore) (ty ty' : TypeId) : Prop :=
  ty' = ty ∧ types.Holds ty

namespace TypeStore

variable {types types' : TypeStore}

theorem Shares.of_extends {ty ty' : TypeId} (shared : types.Shares ty ty')
    (extension : types.Extends types') : types'.Shares ty ty' :=
  ⟨shared.1, extension.holds shared.2⟩

theorem forall₂_shares_iff {list list' : List TypeId} :
    List.Forall₂ types.Shares list list' ↔ list' = list ∧ ∀ ty ∈ list, types.Holds ty := by
  constructor
  · intro related
    induction related with
    | nil => exact ⟨rfl, by simp⟩
    | cons headShared _ ih =>
      obtain ⟨rfl, headHeld⟩ := headShared
      obtain ⟨rfl, tailHeld⟩ := ih
      exact ⟨rfl, List.forall_mem_cons.mpr ⟨headHeld, tailHeld⟩⟩
  · rintro ⟨rfl, held⟩
    exact List.forall₂_same.mpr fun ty member => ⟨rfl, held ty member⟩

theorem option_rel_shares_iff {outer outer' : Option TypeId} :
    Option.Rel types.Shares outer outer' ↔ outer' = outer ∧ ∀ ty ∈ outer, types.Holds ty := by
  constructor
  · intro related
    cases related with
    | none => exact ⟨rfl, by simp⟩
    | some shared =>
      obtain ⟨rfl, held⟩ := shared
      exact ⟨rfl, by simpa using held⟩
  · rintro ⟨rfl, held⟩
    cases outer' with
    | none => exact Option.Rel.none
    | some ty => exact Option.Rel.some ⟨rfl, held ty rfl⟩

theorem node_related_shares_iff {layer layer' : Node} :
    Node.Related types.Shares layer layer' ↔ layer' = layer ∧ types.HoldsParts layer := by
  constructor
  · intro related
    cases related with
    | applied feature isRef isThis sameArgs sameOuter =>
      obtain ⟨rfl, argsHeld⟩ := forall₂_shares_iff.mp sameArgs
      obtain ⟨rfl, outerHeld⟩ := option_rel_shares_iff.mp sameOuter
      refine ⟨rfl, fun child member => ?_⟩
      rcases List.mem_append.mp member with inArgs | inOuter
      · exact argsHeld child inArgs
      · exact outerHeld child (Option.mem_toList.mp inOuter)
    | _ => exact ⟨rfl, fun child member => by cases member⟩
  · rintro ⟨rfl, held⟩
    cases layer' with
    | applied feature args outer isRef isThis =>
      refine .applied feature isRef isThis (forall₂_shares_iff.mpr ⟨rfl, fun ty member => ?_⟩)
        (option_rel_shares_iff.mpr ⟨rfl, fun ty member => ?_⟩)
      · exact held ty (List.mem_append_left _ member)
      · exact held ty (List.mem_append_right _ (Option.mem_toList.mpr member))
    | error => exact .error
    | void => exact .void
    | undefined => exact .undefined
    | formal id boxed => exact .formal id boxed

theorem Coherent.node_related (coherent : types.Coherent) {ty : TypeId} (held : types.Holds ty) :
    Node.Related types.Shares (types.node ty) (types.node ty) :=
  node_related_shares_iff.mpr ⟨rfl, fun _ member => coherent.child_holds held member⟩

end TypeStore

theorem Feature.WellFormed.related {types : TypeStore} {id : FeatureId} {declared : Feature}
    (wellFormed : declared.WellFormed types id) (companion : Option FeatureId) :
    Feature.Related types.Shares declared { declared with companion } where
  name_eq := rfl
  qualifiedName_eq := rfl
  outer_eq := rfl
  isRef_eq := rfl
  origin_eq := rfl
  formals_related := List.forall₂_same.mpr fun formal member =>
    ⟨rfl, rfl, rfl, rfl, rfl, wellFormed.constraint_held formal member⟩
  parents_related := List.forall₂_same.mpr fun parent member =>
    ⟨rfl, TypeStore.forall₂_shares_iff.mpr ⟨rfl, wellFormed.actuals_held parent member⟩,
      rfl, wellFormed.ty_held parent member⟩
  summands_related := by
    cases isChoice : declared.summands with
    | none => exact Option.Rel.none
    | some summands =>
      exact Option.Rel.some
        (TypeStore.forall₂_shares_iff.mpr ⟨rfl, wellFormed.summands_held summands isChoice⟩)

end FeatureTypes

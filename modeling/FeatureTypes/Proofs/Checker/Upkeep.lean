import FeatureTypes.Proofs.Checker.Placement
import FeatureTypes.Proofs.Lockstep.Marked

/-!
# Reachable checkers have built tables

That the table is built is a mark of the checker, and every change of the table is a step
that builds it.
-/

namespace FeatureTypes.Lockstep

open Checker

/-- The features of the checker are built by declarations. -/
def BuiltUp (checker : Checker) : Prop :=
  checker.features.Built checker.types

theorem lasts_builtUp : Lasts Eq BuiltUp := by
  intro checker later built wellFormed wellFormed' extension featuresEq _ _ _
  rw [BuiltUp, ← featuresEq]
  exact built.of_extends extension wellFormed.types_canonical.toCoherent
    wellFormed'.types_canonical.toCoherent

theorem Pair.marked_allows {mark : Checker → Prop} (pair : Pair (Marked mark))
    {table : FeatureTable} (marked : mark { pair.first with features := table }) :
    pair.Allows table :=
  ⟨detached_alike.rewrite table pair.related.toAlike, marked⟩

theorem writable_builtUp : Writable (Marked BuiltUp) fun _ => True where
  stable := marked_stable lasts_builtUp
  feature {pair} _ _ _ _ _ _ plain declared :=
    ⟨trivial, pair.marked_allows (.feature pair.related.marked plain declared)⟩
  formal {pair} _ _ _ _ _ _ _ _ added :=
    pair.marked_allows (.formal pair.related.marked added)
  parent {before pair heir ancestor actuals ty table} _ actualsHeld run modified := by
    have presents : WellFormedWith before.first.features before.first :=
      ⟨before.twins.wellFormed, rfl⟩
    have rooted : ∀ root, before.first.features.get .universe = .ok root → root.outer = none :=
      fun root found => (before.related.marked.orderly.outer_eq_none_iff _ root found).mpr rfl
    obtain ⟨presents', _, placed, spells⟩ :=
      keeps_instantiate rooted presents ancestor actualsHeld ty _ run
    rw [← presents'.features_eq] at placed spells
    exact pair.marked_allows (.parent pair.related.marked spells placed modified)
  summands {pair} _ _ _ _ modified :=
    pair.marked_allows (.summands pair.related.marked modified)
  companion {pair} _ _ _ modified :=
    pair.marked_allows (.companion pair.related.marked modified)

theorem lasting_builtUp : Lasting BuiltUp where
  grow := lasts_builtUp
  companion id := (declaring writable_builtUp).companionWithin (id.index + 1) id
  byOwner _ _ _ _ _ _ _ built _ _ _ _ := built
  viaType _ _ _ _ _ _ built _ _ _ _ := built

theorem after_builtUp {checker : Checker} (sound : checker.Sound) (built : BuiltUp checker)
    (operation : Operation) (held : ∀ ty ∈ operation.uses, checker.types.Holds ty)
    (completes : operation.completes checker = true) : BuiltUp (operation.after checker) := by
  refine (after_marked lasting_builtUp sound built ?_ operation held completes ?_).2.1
  · intro checker later built _ typesEq featuresEq _ _
    rw [BuiltUp, typesEq, featuresEq]
    exact built
  · rintro declaration rfl _ _
    have typeRoot (pair : Pair (Marked BuiltUp)) (root : FeatureId) :
        pair.Allows { pair.first.features with typeRoot := some root } :=
      pair.marked_allows (.typeRoot pair.related.marked root)
    exact (@after_twice _ _ sound built (.declare declaration)
      (couples_declaration writable_builtUp typeRoot declaration held) completes).2.1

end FeatureTypes.Lockstep

/-- The features of a reachable checker are built by declarations. -/
theorem FeatureTypes.Checker.Reachable.built {checker : Checker} (reachable : checker.Reachable) :
    checker.features.Built checker.types := by
  induction reachable with
  | initial options journal => exact .initial
  | step reachable operation held completes ih =>
    exact Lockstep.after_builtUp reachable.sound ih operation held completes

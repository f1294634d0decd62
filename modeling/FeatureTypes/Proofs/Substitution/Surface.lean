import FeatureTypes.Proofs.Lockstep.Marked
import FeatureTypes.Proofs.Substitution.Errors

/-!
# Substitution does not bury errors

What the checker remembers may be older than some of its declarations.  A parent or a formal
that is declared later can only make the conditions stronger, so a remembered result that
was clean is clean still.
-/

namespace FeatureTypes

variable {checker : Checker}

namespace Checker

/-! ## Clean memo tables last -/

/-- If the parents have clean actuals, then what is remembered is clean. -/
def Watched (checker : Checker) : Prop :=
  checker.ActualsClean → checker.options.memoize = true → checker.MemosClean

theorem Watched.of_develops {later : Checker} (watched : checker.Watched)
    (wellFormed : checker.WellFormed) (extension : checker.types.Extends later.types)
    (develops : checker.features.Develops later.features)
    (memoizeEq : later.options.memoize = checker.options.memoize)
    (byOwnerEq : later.byOwner.entries = checker.byOwner.entries)
    (viaTypeEq : later.viaType.entries = checker.viaType.entries) : later.Watched := by
  intro clean on
  have cleanBefore := clean.of_develops wellFormed extension develops
  exact (watched cleanBefore (memoizeEq ▸ on)).of_develops wellFormed extension develops byOwnerEq
    viaTypeEq

theorem watched_of_empty (_ : checker.WellFormed) (byOwner : checker.byOwner.entries.isEmpty = true)
    (viaType : checker.viaType.entries.isEmpty = true) : checker.Watched := by
  intro _ _
  refine ⟨?_, ?_, ?_, ?_⟩
  all_goals
    intro key result found
    simp [Std.TreeMap.getElem?_of_isEmpty, byOwner, viaType] at found

theorem Watched.guarded (watched : checker.Watched) (wellFormed : checker.WellFormed)
    (clean : checker.ActualsClean) : checker.Guarded :=
  ⟨wellFormed, clean, watched clean⟩

end Checker

namespace Lockstep

open Checker Coupling

theorem lasts_watched : Lasts FeatureTable.Grows Watched :=
  fun watched wellFormed _ extension growth =>
    watched.of_develops wellFormed extension growth.develops

theorem lasting_watched : Lasting Watched where
  grow := lasts_watched.of_grows
  companion id := couples_companion? (marked_growing lasts_watched) id
  byOwner {checker after} depth owner actuals target result sound watched watchedAfter _
      actualsHeld targetHeld run := by
    have engine := (transparent_marked (lasting_grown checker.features)).full.toEngine
    obtain ⟨extension, growth⟩ := grows_of_run sound
      (engine.substituteStep (engine.substituteWithin (Nat.le_refl depth)) _ owner _ _ _ _
        (TypeStore.forall₂_shares_iff.mpr ⟨rfl, actualsHeld⟩) ⟨rfl, targetHeld⟩) run
    intro clean on
    have guarded := watched.guarded sound.toWellFormed
      (ActualsClean.of_develops sound.toWellFormed extension growth.develops clean)
    refine (watchedAfter clean on).rememberByOwner _ (extension.holds targetHeld)
      (fun actual member => extension.holds (actualsHeld actual member)) ?_
    intro targetClean actualsClean
    exact (keeps_substituteStep (substituteWithin_keepsClean depth) guarded owner
      (fun actual member =>
        (actualsClean actual member).of_larger (actualsHeld actual member) extension)
      (targetClean.of_larger targetHeld extension) result after run).2.2
  viaType {checker after} depth source target result sound watched watchedAfter _ sourceHeld
      targetHeld run := by
    have engine := (transparent_marked (lasting_grown checker.features)).full.toEngine
    obtain ⟨extension, growth⟩ := grows_of_run sound
      (engine.viewStep (engine.substituteWithin (Nat.le_refl depth))
        (fun _ _ _ _ _ => engine.substituteViaWithin (Nat.le_refl depth)) ⟨rfl, sourceHeld⟩
        ⟨rfl, targetHeld⟩) run
    intro clean on
    have wellFormed := sound.toWellFormed
    have guarded := watched.guarded wellFormed
      (ActualsClean.of_develops wellFormed extension growth.develops clean)
    refine (watchedAfter clean on).rememberViaType _ (extension.holds sourceHeld)
      (extension.holds targetHeld) ?_
    intro targetClean viewClean
    exact (keeps_viewStep (substituteWithin_keepsClean depth)
      (fun guarded held => keeps_substituteViaWithin depth guarded held) guarded sourceHeld
      (viewClean.of_develops wellFormed extension growth.develops sourceHeld)
      (targetClean.of_larger targetHeld extension) result after run).2.2

theorem after_watched (sound : checker.Sound) (watched : checker.Watched) (operation : Operation)
    (held : ∀ ty ∈ operation.uses, checker.types.Holds ty)
    (completes : operation.completes checker = true) : (operation.after checker).Watched := by
  refine (after_marked lasting_watched sound watched
    (fun _ wellFormed _ _ => watched_of_empty wellFormed) operation held completes ?_).2.1
  rintro declaration rfl _ retains
  exact watched.of_develops sound.toWellFormed retains.types_extend
    retains.features_develop (by rw [retains.options_eq])
    (by rw [retains.byOwner_eq]) (by rw [retains.viaType_eq])

end Lockstep

namespace Checker

/-- If the parents have clean actuals, a reachable checker remembers clean results. -/
theorem Reachable.watched (reachable : checker.Reachable) : checker.Watched := by
  induction reachable with
  | initial options journal => exact watched_of_empty (initial_wellFormed options journal) rfl rfl
  | step reachable operation held completes ih =>
    exact Lockstep.after_watched reachable.sound ih operation held completes

end Checker

end FeatureTypes

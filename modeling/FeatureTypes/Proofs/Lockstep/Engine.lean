import FeatureTypes.Proofs.Lockstep.Declaration

/-!
# The engine in lockstep
-/

namespace FeatureTypes.Lockstep

open Checker Coupling

/-! ## Reports and assumptions -/

section

variable {memos : Checker → Checker → Prop} (stable : Stable memos) {pair : Pair memos}

include stable

theorem couples_report (issue : Issue) (span : Span) :
    (lockstep memos).couples pair (report issue span) (report issue span)
      (lockstep memos).Agrees := by
  refine (core stable).bind_agrees (couples_record stable pair _ _) ?_
  intro pair₁ _ _
  have twins := pair₁.twins
  have first : pair₁.first.Proceeds
      { pair₁.first with reports := pair₁.first.reports.push ⟨issue, span⟩ } :=
    { Proceeds.refl pair₁.first with reported := fun _ => by simp }
  have second : pair₁.second.Proceeds
      { pair₁.second with reports := pair₁.second.reports.push ⟨issue, span⟩ } :=
    { Proceeds.refl pair₁.second with reported := fun _ => by simp }
  exact .advance stable first second
    (twins.advance first second twins.types_eq (by simp)
      ⟨twins.wellFormed.types_canonical, twins.wellFormed.features_wellFormed⟩) fun _ _ => rfl

theorem couples_expect (what : Invariant) (holds : Bool) :
    (lockstep memos).couples pair (expect what holds) (expect what holds)
      (lockstep memos).Agrees := by
  have twins := pair.twins
  simp only [lockstep, run_expect, twins.strict_eq, twins.reported_iff]
  cases holds with
  | true => exact .ok pair (.refl _) rfl
  | false =>
    simp only [Bool.false_eq_true, if_false]
    split
    · exact couples_record stable pair _ _
    · split
      · exact .failed _ pair (.refl _)
      · exact couples_record stable pair _ _

omit stable in
theorem couples_hasReports :
    (lockstep memos).couples pair hasReports hasReports (lockstep memos).Agrees := by
  have answerEq : decide (0 < pair.second.reports.size) = decide (0 < pair.first.reports.size) :=
    decide_eq_decide.mpr pair.twins.reported_iff
  exact .ok pair (.refl _) answerEq

theorem couples_recordEntry (check : Check) {ty ty' : TypeId}
    (tySame : (lockstep memos).same pair ty ty') :
    (lockstep memos).couples pair (recordEntry check ty) (recordEntry check ty')
      (lockstep memos).Agrees := by
  have core := core stable
  have entered : (lockstep memos).couples pair (do record (.entered check (← display ty)))
      (do record (.entered check (← display ty'))) (lockstep memos).Agrees :=
    core.bind_agrees (core.display tySame) fun pair' text _ => core.record _ _
  simp only [recordEntry, lockstep, EStateM.run_bind, EStateM.run_get, pair.twins.recording_eq]
  split
  · exact entered
  · exact .ok pair (.refl _) rfl

end

/-- Checkers with related memo tables stay in lockstep where these are asked and where
companions are created. -/
structure Transparent (memos : Checker → Checker → Prop) : Prop where
  stable : Stable memos
  companion : ∀ {pair : Pair memos} (id : FeatureId),
    (lockstep memos).couples pair (companion? id) (companion? id) (lockstep memos).Agrees
  byOwner : ∀ {pair : Pair memos} {depth depth' : Nat} (owner : FeatureId)
    {actuals : List TypeId} {target : TypeId},
    depth ≤ depth' → (∀ actual ∈ actuals, pair.first.types.Holds actual) →
      pair.first.types.Holds target →
      (∀ pair' : Pair memos, pair.first.Later pair'.first →
        (lockstep memos).couples pair'
          (substituteStep (substituteWithin depth) owner actuals target)
          (substituteStep (substituteWithin depth') owner actuals target) (lockstep memos).same) →
      (lockstep memos).couples pair
        (memoized (recallByOwner ⟨target, owner, actuals⟩)
          (rememberByOwner ⟨target, owner, actuals⟩)
          (substituteStep (substituteWithin depth) owner actuals target))
        (memoized (recallByOwner ⟨target, owner, actuals⟩)
          (rememberByOwner ⟨target, owner, actuals⟩)
          (substituteStep (substituteWithin depth') owner actuals target)) (lockstep memos).same
  viaType : ∀ {pair : Pair memos} {depth depth' : Nat} {source target : TypeId},
    depth ≤ depth' → pair.first.types.Holds source → pair.first.types.Holds target →
      (∀ pair' : Pair memos, pair.first.Later pair'.first →
        (lockstep memos).couples pair'
          (viewStep (substituteWithin depth) (substituteViaWithin depth) source target)
          (viewStep (substituteWithin depth') (substituteViaWithin depth') source target)
          (lockstep memos).same) →
      (lockstep memos).couples pair
        (memoized (recallViaType ⟨source, target⟩) (rememberViaType ⟨source, target⟩)
          (viewStep (substituteWithin depth) (substituteViaWithin depth) source target))
        (memoized (recallViaType ⟨source, target⟩) (rememberViaType ⟨source, target⟩)
          (viewStep (substituteWithin depth') (substituteViaWithin depth') source target))
        (lockstep memos).same

/-- All operations are coupled once the memo tables are transparent. -/
theorem Transparent.full {memos : Checker → Checker → Prop} (transparent : Transparent memos) :
    (lockstep memos).Full where
  toCore := core transparent.stable
  exhausted := .exhausted _ _
  limit {_ _ pair operation operation' _} coupled := by
    simp only [lockstep, run_withinLimit, pair.twins.depthLimit_eq]
    exact coupled _
  report issue span := couples_report transparent.stable issue span
  ensureNotOpen tySame := (core transparent.stable).ensureNotOpen tySame fun _ =>
    couples_report transparent.stable
  expect what holds := couples_expect transparent.stable what holds
  recordEntry check tySame := couples_recordEntry transparent.stable check tySame
  byOwner {pair depth depth' owner actuals actuals' target target'} enough sameActuals targetSame
      coupled := by
    obtain ⟨rfl, actualsHeld⟩ := TypeStore.forall₂_shares_iff.mp sameActuals
    obtain ⟨rfl, targetHeld⟩ := targetSame
    exact transparent.byOwner owner enough actualsHeld targetHeld coupled
  viaType {pair depth depth' source source' target target'} enough sourceSame targetSame
      coupled := by
    obtain ⟨rfl, sourceHeld⟩ := sourceSame
    obtain ⟨rfl, targetHeld⟩ := targetSame
    exact transparent.viaType enough sourceHeld targetHeld coupled
  companion id := transparent.companion id
  typeRoot := couples_typeRoot?
  reported := couples_hasReports

end FeatureTypes.Lockstep

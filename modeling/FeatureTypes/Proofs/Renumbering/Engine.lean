import FeatureTypes.Proofs.Renumbering.Declaration

/-!
# The engine under other numbers
-/

namespace FeatureTypes.Renumbering

variable {compute compute' : CheckM TypeId}

open Checker

variable {pair : Pair}

/-! ## Reports and assumptions -/

theorem couples_report (issue : Issue) (span : Span) :
    renumbering.couples pair (report issue span) (report issue span) renumbering.Agrees := by
  refine core.bind_agrees (couples_record _ _) ?_
  intro pair₁ _ _
  have renumbered := pair₁.renumbered
  exact .step (renumbered.advance (.refl _) (.refl _) renumbered.wellFormed.types_canonical
    renumbered.other_wellFormed.types_canonical rfl rfl renumbered.recording_eq (by simp)) (.refl _)
    (.refl _) rfl

theorem couples_expect (what : Invariant) (holds : Bool) :
    renumbering.couples pair (expect what holds) (expect what holds) renumbering.Agrees := by
  have renumbered := pair.renumbered
  simp only [renumbering, run_expect, renumbered.options_eq, renumbered.reported_iff]
  cases holds with
  | true => exact .ok pair (.refl pair) rfl
  | false =>
    simp only [Bool.false_eq_true, if_false]
    split
    · exact couples_record _ _
    · split
      · exact .failed _ pair (.refl pair)
      · exact couples_record _ _

theorem couples_hasReports : renumbering.couples pair hasReports hasReports renumbering.Agrees := by
  have answerEq : decide (0 < pair.second.reports.size) = decide (0 < pair.first.reports.size) :=
    decide_eq_decide.mpr pair.renumbered.reported_iff
  exact .ok pair (.refl pair) answerEq

theorem couples_recordEntry (check : Check) {ty ty' : TypeId}
    (tySame : renumbering.same pair ty ty') :
    renumbering.couples pair (recordEntry check ty) (recordEntry check ty') renumbering.Agrees := by
  have entered : renumbering.couples pair (do record (.entered check (← display ty)))
      (do record (.entered check (← display ty'))) renumbering.Agrees :=
    core.bind_agrees (core.display tySame) fun pair' text _ => core.record _ _
  simp only [recordEntry, renumbering, EStateM.run_bind, EStateM.run_get,
    pair.renumbered.recording_eq]
  split
  · exact entered
  · exact .ok pair (.refl pair) rfl

/-! ## Memo tables -/

theorem couples_memoized {known known' : CheckM (Option TypeId)}
    {remember remember' : TypeId → CheckM Unit}
    (recalled : renumbering.couples pair known known' fun pair' =>
      Option.Rel (renumbering.same pair'))
    (computed : ∀ pair', renumbering.later pair pair' →
      renumbering.couples pair' compute compute' renumbering.same)
    (remembered : ∀ pair' ty ty', renumbering.later pair pair' → renumbering.same pair' ty ty' →
      renumbering.couples pair' (remember ty) (remember' ty') renumbering.Agrees) :
    renumbering.couples pair (memoized known remember compute)
      (memoized known' remember' compute') renumbering.same := by
  have memoizeEq := congrArg Options.memoize pair.renumbered.options_eq
  cases flag : pair.first.options.memoize with
  | false =>
    have coupled := computed pair (.refl pair)
    simp only [renumbering, run_memoized_off flag, run_memoized_off (memoizeEq.trans flag)]
    exact coupled
  | true =>
    simp only [renumbering, run_memoized_on flag, run_memoized_on (memoizeEq.trans flag)]
    refine core.bind recalled ?_
    intro pair₁ found found' step₁ foundRelated
    cases foundRelated with
    | some resultSame => exact core.pure resultSame
    | none =>
      refine core.bind (computed pair₁ step₁) ?_
      intro pair₂ result result' step₂ resultSame
      refine core.bind_agrees
        (remembered pair₂ _ _ (core.later_trans step₁ step₂) resultSame) ?_
      intro pair₃ _ step₃
      exact core.pure (core.same_later resultSame step₃)

theorem couples_byOwner {key key' : SubstitutionKey}
    (keyRelated : key.Related (renumbering.same pair) key')
    (computed : ∀ pair', renumbering.later pair pair' →
      renumbering.couples pair' compute compute' renumbering.same) :
    renumbering.couples pair (memoized (recallByOwner key) (rememberByOwner key) compute)
      (memoized (recallByOwner key') (rememberByOwner key') compute') renumbering.same := by
  refine couples_memoized ?_ computed ?_
  · have renumbered := pair.renumbered
    have known := renumbered.byOwner_related.lookup
      (SubstitutionKey.Related.eq_iff renumbered.eq_iff) keyRelated
    simp only [renumbering, run_recallByOwner]
    exact .step (renumbered.withMemos (renumbered.byOwner_related.consult key key')
      renumbered.viaType_related) (.refl _) (.refl _) known
  · intro pair' ty ty' later tySame
    have renumbered := pair'.renumbered
    have keyRelated := keyRelated.imp fun _ _ same => core.same_later same later
    exact .step (renumbered.withMemos (renumbered.byOwner_related.remember
      (SubstitutionKey.Related.eq_iff renumbered.eq_iff) keyRelated tySame)
      renumbered.viaType_related) (.refl _) (.refl _) rfl

theorem couples_viaType {key key' : ViewKey} (keyRelated : key.Related (renumbering.same pair) key')
    (computed : ∀ pair', renumbering.later pair pair' →
      renumbering.couples pair' compute compute' renumbering.same) :
    renumbering.couples pair (memoized (recallViaType key) (rememberViaType key) compute)
      (memoized (recallViaType key') (rememberViaType key') compute') renumbering.same := by
  refine couples_memoized ?_ computed ?_
  · have renumbered := pair.renumbered
    have known := renumbered.viaType_related.lookup
      (ViewKey.Related.eq_iff renumbered.eq_iff) keyRelated
    simp only [renumbering, run_recallViaType]
    exact .step (renumbered.withMemos renumbered.byOwner_related
      (renumbered.viaType_related.consult key key')) (.refl _) (.refl _) known
  · intro pair' ty ty' later tySame
    have renumbered := pair'.renumbered
    have keyRelated := keyRelated.imp fun _ _ same => core.same_later same later
    exact .step (renumbered.withMemos renumbered.byOwner_related
      (renumbered.viaType_related.remember (ViewKey.Related.eq_iff renumbered.eq_iff) keyRelated
        tySame)) (.refl _) (.refl _) rfl

/-- Numbers do not matter to substitutions and checks. -/
theorem full : renumbering.Full where
  toCore := core
  exhausted := .exhausted _ _
  limit {_ _ pair operation operation' _} coupled := by
    simp only [renumbering, run_withinLimit, pair.renumbered.options_eq]
    exact coupled _
  report issue span := couples_report issue span
  ensureNotOpen tySame := core.ensureNotOpen tySame fun _ => couples_report
  expect what holds := couples_expect what holds
  recordEntry check tySame := couples_recordEntry check tySame
  byOwner _ sameActuals targetSame coupled := by
    refine couples_byOwner ?_ coupled
    exact ⟨targetSame, rfl, sameActuals⟩
  viaType _ sourceSame targetSame coupled := couples_viaType ⟨sourceSame, targetSame⟩ coupled
  companion id := declaring.companionWithin (id.index + 1) id
  typeRoot := couples_typeRoot?
  reported := couples_hasReports

end FeatureTypes.Renumbering

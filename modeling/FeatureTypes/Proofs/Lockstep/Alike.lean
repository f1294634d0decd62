import FeatureTypes.Proofs.Lockstep.Engine
import FeatureTypes.Proofs.Memo.Basic

/-!
# Lockstep with equal memo tables
-/

namespace FeatureTypes

namespace Lockstep

open Checker Coupling

/-- If results are remembered, then the same ones. -/
structure Alike (checker twin : Checker) : Prop where
  memoize_eq : twin.options.memoize = checker.options.memoize
  byOwner_eq : checker.options.memoize = true → twin.byOwner.entries = checker.byOwner.entries
  viaType_eq : checker.options.memoize = true → twin.viaType.entries = checker.viaType.entries
  stored : checker.options.memoize = true → checker.MemosStored

theorem alike_growing : Growing Alike := by
  intro checker twin checker' twin' alike _ _ first second
  have flagEq := congrArg Options.memoize first.options_eq
  refine ⟨?_, ?_, ?_, ?_⟩
  · rw [second.options_eq, first.options_eq, alike.memoize_eq]
  · rw [flagEq, first.byOwner_eq, second.byOwner_eq]
    exact alike.byOwner_eq
  · rw [flagEq, first.viaType_eq, second.viaType_eq]
    exact alike.viaType_eq
  · intro on
    have stored := alike.stored (flagEq ▸ on)
    refine ⟨?_, ?_⟩
    · rw [first.byOwner_eq]
      exact fun key result found => first.types_extend.holds (stored.byOwner_held key result found)
    · rw [first.viaType_eq]
      exact fun key result found => first.types_extend.holds (stored.viaType_held key result found)

theorem Twins.withMemos {checker twin : Checker} (twins : checker.Twins twin)
    (byOwner byOwner' : Memo SubstitutionKey TypeId) (viaType viaType' : Memo ViewKey TypeId) :
    Twins { checker with byOwner, viaType }
      { twin with byOwner := byOwner', viaType := viaType' } where
  __ := twins
  wellFormed := ⟨twins.wellFormed.types_canonical, twins.wellFormed.features_wellFormed⟩

/-! ## Recalling and remembering -/

namespace Alike

variable {checker twin : Checker} (alike : Alike checker twin)

include alike

theorem consultByOwner (key : SubstitutionKey) :
    Alike { checker with byOwner := (checker.byOwner.consult key).2 }
      { twin with byOwner := (twin.byOwner.consult key).2 } :=
  { alike with
    byOwner_eq := by simpa using alike.byOwner_eq
    stored := fun on => ⟨by simpa using (alike.stored on).byOwner_held,
      (alike.stored on).viaType_held⟩ }

theorem consultViaType (key : ViewKey) :
    Alike { checker with viaType := (checker.viaType.consult key).2 }
      { twin with viaType := (twin.viaType.consult key).2 } :=
  { alike with
    viaType_eq := by simpa using alike.viaType_eq
    stored := fun on => ⟨(alike.stored on).byOwner_held,
      by simpa using (alike.stored on).viaType_held⟩ }

theorem rememberByOwner (key : SubstitutionKey) {ty : TypeId} (held : checker.types.Holds ty) :
    Alike { checker with byOwner := checker.byOwner.remember key ty }
      { twin with byOwner := twin.byOwner.remember key ty } :=
  { alike with
    byOwner_eq := fun on => by simp only [Memo.remember, alike.byOwner_eq on]
    stored := fun on => by
      refine ⟨fun key' result found => ?_, (alike.stored on).viaType_held⟩
      rcases Memo.remember_cases _ found with ⟨_, rfl⟩ | old
      · exact held
      · exact (alike.stored on).byOwner_held key' result old }

theorem rememberViaType (key : ViewKey) {ty : TypeId} (held : checker.types.Holds ty) :
    Alike { checker with viaType := checker.viaType.remember key ty }
      { twin with viaType := twin.viaType.remember key ty } :=
  { alike with
    viaType_eq := fun on => by simp only [Memo.remember, alike.viaType_eq on]
    stored := fun on => by
      refine ⟨(alike.stored on).byOwner_held, fun key' result found => ?_⟩
      rcases Memo.remember_cases _ found with ⟨_, rfl⟩ | old
      · exact held
      · exact (alike.stored on).viaType_held key' result old }

end Alike

section

variable {memos : Checker → Checker → Prop}

/-- What both checkers of a pair remember is replaced. -/
def Pair.withMemos
    (pair : Pair memos) (byOwner byOwner' : Memo SubstitutionKey TypeId)
    (viaType viaType' : Memo ViewKey TypeId)
    (related : memos { pair.first with byOwner, viaType }
      { pair.second with byOwner := byOwner', viaType := viaType' }) : Pair memos :=
  ⟨_, _, Twins.withMemos pair.twins byOwner byOwner' viaType viaType', related⟩

theorem Pair.later_withMemos (pair : Pair memos) {byOwner byOwner' : Memo SubstitutionKey TypeId}
    {viaType viaType' : Memo ViewKey TypeId}
    (related : memos { pair.first with byOwner, viaType }
      { pair.second with byOwner := byOwner', viaType := viaType' }) :
    pair.first.Later (pair.withMemos _ _ _ _ related).first :=
  ⟨TypeStore.Extends.refl pair.first.types, FeatureTable.Develops.refl pair.first.features⟩

/-- Remembering is coupled if recalling, computing and storing are. -/
theorem couples_memoized (core : (lockstep memos).Core) {pair : Pair memos}
    {known known' : CheckM (Option TypeId)} {remember remember' : TypeId → CheckM Unit}
    {compute compute' : CheckM TypeId}
    (memoizeEq : pair.second.options.memoize = pair.first.options.memoize)
    (recalled : pair.first.options.memoize = true →
      (lockstep memos).couples pair known known' fun pair' =>
        Option.Rel ((lockstep memos).same pair'))
    (computed : ∀ pair', (lockstep memos).later pair pair' →
      (lockstep memos).couples pair' compute compute' (lockstep memos).same)
    (remembered : ∀ pair' next ty ty', (lockstep memos).later pair pair' →
      known.run pair.first = .ok none pair'.first → compute.run pair'.first = .ok ty next.first →
      (lockstep memos).same next ty ty' →
        (lockstep memos).couples next (remember ty) (remember' ty') (lockstep memos).Agrees) :
    (lockstep memos).couples pair (memoized known remember compute)
      (memoized known' remember' compute') (lockstep memos).same := by
  cases flag : pair.first.options.memoize with
  | false =>
    have coupled := computed pair (core.later_refl pair)
    simp only [lockstep, run_memoized_off flag, run_memoized_off (memoizeEq.trans flag)]
    exact coupled
  | true =>
    simp only [lockstep, run_memoized_on flag, run_memoized_on (memoizeEq.trans flag)]
    refine couples_bind_run (recalled flag) ?_
    intro pair₁ found found' step₁ missed foundRelated
    cases foundRelated with
    | some resultSame => exact core.pure resultSame
    | none =>
      refine couples_bind_run (computed pair₁ step₁) ?_
      intro pair₂ result result' step₂ run resultSame
      refine core.bind_agrees (remembered pair₁ pair₂ _ _ step₁ missed run resultSame) ?_
      intro pair₃ _ step₃
      exact core.pure (core.same_later resultSame step₃)

variable {pair : Pair memos} (alike : Alike pair.first pair.second)

include alike

theorem couples_recallByOwner (on : pair.first.options.memoize = true) (key : SubstitutionKey)
    (next : memos { pair.first with byOwner := (pair.first.byOwner.consult key).2 }
      { pair.second with byOwner := (pair.second.byOwner.consult key).2 }) :
    (lockstep memos).couples pair (recallByOwner key) (recallByOwner key) fun pair' =>
      Option.Rel ((lockstep memos).same pair') := by
  simp only [lockstep, run_recallByOwner, alike.byOwner_eq on]
  refine .ok (pair.withMemos _ _ _ _ next) (pair.later_withMemos next) ?_
  exact TypeStore.option_rel_shares_iff.mpr
    ⟨rfl, fun result found => (alike.stored on).byOwner_held key result found⟩

theorem couples_recallViaType (on : pair.first.options.memoize = true) (key : ViewKey)
    (next : memos { pair.first with viaType := (pair.first.viaType.consult key).2 }
      { pair.second with viaType := (pair.second.viaType.consult key).2 }) :
    (lockstep memos).couples pair (recallViaType key) (recallViaType key) fun pair' =>
      Option.Rel ((lockstep memos).same pair') := by
  simp only [lockstep, run_recallViaType, alike.viaType_eq on]
  refine .ok (pair.withMemos _ _ _ _ next) (pair.later_withMemos next) ?_
  exact TypeStore.option_rel_shares_iff.mpr
    ⟨rfl, fun result found => (alike.stored on).viaType_held key result found⟩

omit alike in
theorem couples_rememberByOwner (key : SubstitutionKey) (ty : TypeId)
    (next : memos { pair.first with byOwner := pair.first.byOwner.remember key ty }
      { pair.second with byOwner := pair.second.byOwner.remember key ty }) :
    (lockstep memos).couples pair (rememberByOwner key ty) (rememberByOwner key ty)
      (lockstep memos).Agrees :=
  .ok (pair.withMemos _ _ _ _ next) (pair.later_withMemos next) rfl

omit alike in
theorem couples_rememberViaType (key : ViewKey) (ty : TypeId)
    (next : memos { pair.first with viaType := pair.first.viaType.remember key ty }
      { pair.second with viaType := pair.second.viaType.remember key ty }) :
    (lockstep memos).couples pair (rememberViaType key ty) (rememberViaType key ty)
      (lockstep memos).Agrees :=
  .ok (pair.withMemos _ _ _ _ next) (pair.later_withMemos next) rfl

end

/-- Equal memo tables stay equal wherever they are asked. -/
theorem transparent_alike : Transparent Alike where
  stable := alike_growing.stable
  companion id := couples_companion? alike_growing id
  byOwner {pair _ _} owner actuals target _ _ _ coupled := by
    have alike := pair.related
    refine couples_memoized (core alike_growing.stable) alike.memoize_eq
      (fun on => couples_recallByOwner alike on _ (alike.consultByOwner _)) coupled ?_
    rintro _ next ty _ _ _ _ ⟨rfl, held⟩
    exact couples_rememberByOwner _ _ (next.related.rememberByOwner _ held)
  viaType {pair _ _ source target} _ _ _ coupled := by
    have alike := pair.related
    refine couples_memoized (core alike_growing.stable) alike.memoize_eq
      (fun on => couples_recallViaType alike on _ (alike.consultViaType _)) coupled ?_
    rintro _ next ty _ _ _ _ ⟨rfl, held⟩
    exact couples_rememberViaType _ _ (next.related.rememberViaType _ held)

end Lockstep

end FeatureTypes

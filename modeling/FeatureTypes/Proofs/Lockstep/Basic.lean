import FeatureTypes.Proofs.Checker.Run
import FeatureTypes.Proofs.Coupling.Shared
import FeatureTypes.Proofs.Feature.Built

/-!
# Runs in lockstep

What may be assumed about the memo tables of two checkers is left open here, as a relation
that has to survive the growth of both.
-/

namespace FeatureTypes

variable {α β : Type}

/-- Two checkers that have the same types and features and work alike.  Their memo
tables, and what their reports and journals say, may differ. -/
structure Checker.Twins (checker twin : Checker) : Prop where
  types_eq : twin.types = checker.types
  features_eq : twin.features = checker.features
  strict_eq : twin.options.strict = checker.options.strict
  depthLimit_eq : twin.options.depthLimit = checker.options.depthLimit
  recording_eq : twin.journal.recording = checker.journal.recording
  reported_iff : 0 < twin.reports.size ↔ 0 < checker.reports.size
  wellFormed : checker.WellFormed

theorem Checker.WellFormed.twins {checker : Checker} (wellFormed : checker.WellFormed) :
    checker.Twins checker :=
  ⟨rfl, rfl, rfl, rfl, rfl, Iff.rfl, wellFormed⟩

/-- The later checker has grown and has the same memo tables. -/
structure Checker.Advances (checker later : Checker) : Prop extends Grows checker later where
  byOwner_eq : later.byOwner = checker.byOwner
  viaType_eq : later.viaType = checker.viaType

namespace Checker.Advances

theorem refl (checker : Checker) : checker.Advances checker :=
  { Grows.refl checker with byOwner_eq := rfl, viaType_eq := rfl }

theorem trans {first second third : Checker} (lower : first.Advances second)
    (upper : second.Advances third) : first.Advances third :=
  { lower.toGrows.trans upper.toGrows with
    byOwner_eq := upper.byOwner_eq.trans lower.byOwner_eq
    viaType_eq := upper.viaType_eq.trans lower.viaType_eq }

end Checker.Advances

/-- The later checker has advanced and has the same features. -/
structure Checker.Proceeds (checker later : Checker) : Prop extends Advances checker later where
  features_eq : later.features = checker.features

namespace Checker.Proceeds

theorem refl (checker : Checker) : checker.Proceeds checker :=
  { Advances.refl checker with features_eq := rfl }

theorem ofTypes (checker : Checker) {types : TypeStore} (extension : checker.types.Extends types) :
    checker.Proceeds { checker with types } :=
  { refl checker with types_extend := extension }

theorem record (checker : Checker) (event : Event) :
    ∃ after, (record event).run checker = .ok () after ∧ checker.Proceeds after ∧
      after.types = checker.types ∧ after.reports = checker.reports := by
  have recorded (journal : Journal) (same : journal.recording = checker.journal.recording) :
      checker.Proceeds { checker with journal } :=
    { refl checker with recording_eq := same }
  rw [run_record]
  split
  · exact ⟨_, rfl, recorded _ rfl, rfl, rfl⟩
  · exact ⟨_, rfl, refl checker, rfl, rfl⟩

end Checker.Proceeds

/-- The later checker has the types of the earlier one, and its features are where they
were. -/
structure Checker.Later (checker later : Checker) : Prop where
  types_extend : checker.types.Extends later.types
  features_develop : checker.features.Develops later.features

namespace Checker.Later

theorem refl (checker : Checker) : checker.Later checker :=
  ⟨.refl _, .refl _⟩

theorem trans {first second third : Checker} (lower : first.Later second)
    (upper : second.Later third) : first.Later third :=
  ⟨lower.types_extend.trans upper.types_extend,
    lower.features_develop.trans upper.features_develop⟩

theorem holds {checker later : Checker} (step : checker.Later later) {ty : TypeId}
    (held : checker.types.Holds ty) : later.types.Holds ty :=
  step.types_extend.holds held

end Checker.Later

theorem Checker.Proceeds.later {checker later : Checker} (proceeds : checker.Proceeds later) :
    checker.Later later := by
  refine ⟨proceeds.types_extend, ?_⟩
  rw [proceeds.features_eq]
  exact .refl _

theorem Checker.Twins.advance {checker twin checker' twin' : Checker} (twins : checker.Twins twin)
    (first : checker.Proceeds checker') (second : twin.Proceeds twin')
    (typesEq : twin'.types = checker'.types)
    (reportedIff : 0 < twin'.reports.size ↔ 0 < checker'.reports.size)
    (wellFormed : checker'.WellFormed) : checker'.Twins twin' where
  types_eq := typesEq
  features_eq := by rw [second.features_eq, first.features_eq, twins.features_eq]
  strict_eq := by rw [second.options_eq, first.options_eq, twins.strict_eq]
  depthLimit_eq := by rw [second.options_eq, first.options_eq, twins.depthLimit_eq]
  recording_eq := by rw [second.recording_eq, first.recording_eq, twins.recording_eq]
  reported_iff := reportedIff
  wellFormed := wellFormed

namespace Lockstep

open Checker

/-- Two checkers in lockstep, with memo tables related by `memos`. -/
structure Pair (memos : Checker → Checker → Prop) where
  first : Checker
  second : Checker
  twins : first.Twins second
  related : memos first second

/-- The relation between the memo tables survives the growth of both checkers while their
features stay as they are. -/
def Stable (memos : Checker → Checker → Prop) : Prop :=
  ∀ {checker twin checker' twin' : Checker},
    memos checker twin → checker.Twins twin → checker'.Twins twin' →
      checker.Proceeds checker' → twin.Proceeds twin' → memos checker' twin'

section

variable {memos : Checker → Checker → Prop}

/-- The outcomes of two operations in lockstep. -/
abbrev Outcome {α β : Type} (pair : Pair memos) (relation : Pair memos → α → β → Prop) :=
  Coupling.Outcome (fun pair next : Pair memos => pair.first.Later next.first) Pair.first
    Pair.second pair relation

theorem Outcome.of_ok {pair : Pair memos} {relation : Pair memos → α → β → Prop}
    {outcome : EStateM.Result Failure Checker α} {outcome' : EStateM.Result Failure Checker β}
    (related : Outcome pair relation outcome outcome') {result : α} {after : Checker}
    (run : outcome = .ok result after) :
    ∃ next : Pair memos, next.first = after ∧ pair.first.types.Extends next.first.types := by
  cases related with
  | ok next later => exact ⟨next, (EStateM.Result.ok.inj run).2, later.types_extend⟩
  | failed failure next => cases run
  | exhausted checker => cases run

theorem Outcome.exists_pair {pair : Pair memos} {relation : Pair memos → α → β → Prop} {result : α}
    {after : Checker} {outcome' : EStateM.Result Failure Checker β}
    (related : Outcome pair relation (.ok result after) outcome') :
    ∃ next : Pair memos, next.first = after ∧
      ∃ result', outcome' = .ok result' next.second ∧ relation next result result' := by
  cases related with
  | ok next later agree => exact ⟨next, rfl, _, rfl, agree⟩

end

end Lockstep

open Lockstep in
/-- The coupling of checkers in lockstep. -/
def lockstep (memos : Checker → Checker → Prop) : Coupling where
  World := Pair memos
  later pair next := pair.first.Later next.first
  same pair := pair.first.types.Shares
  stores pair types types' := types = pair.first.types ∧ types' = pair.first.types
  couples pair operation operation' relation :=
    Outcome pair relation (operation.run pair.first) (operation'.run pair.second)

namespace Lockstep

open Checker

variable {memos : Checker → Checker → Prop}

section

variable {operation' : CheckM β} {relation : Pair memos → α → β → Prop} {operation : CheckM α}
  {pair : Pair memos} (coupled : (lockstep memos).couples pair operation operation' relation)

include coupled

theorem couples_bind_run {γ δ : Type} {next : α → CheckM γ} {next' : β → CheckM δ}
    {relation' : Pair memos → γ → δ → Prop}
    (further : ∀ pair' result result', (lockstep memos).later pair pair' →
      operation.run pair.first = .ok result pair'.first → relation pair' result result' →
        (lockstep memos).couples pair' (next result) (next' result') relation') :
    (lockstep memos).couples pair (operation >>= next) (operation' >>= next') relation' :=
  Coupling.Outcome.bind .trans coupled further

theorem couples_bind {γ δ : Type} {next : α → CheckM γ} {next' : β → CheckM δ}
    {relation' : Pair memos → γ → δ → Prop}
    (further : ∀ pair' result result', (lockstep memos).later pair pair' →
      relation pair' result result' →
        (lockstep memos).couples pair' (next result) (next' result') relation') :
    (lockstep memos).couples pair (operation >>= next) (operation' >>= next') relation' :=
  couples_bind_run coupled fun pair' result result' later _ => further pair' result result' later

end

theorem Outcome.advance {pair : Pair memos} {relation : Pair memos → α → β → Prop} {result : α}
    {result' : β} {checker twin : Checker} (stable : Stable memos)
    (first : pair.first.Proceeds checker) (second : pair.second.Proceeds twin)
    (twins : checker.Twins twin)
    (related : ∀ next : Pair memos, next.first = checker → relation next result result') :
    Outcome pair relation (.ok result checker) (.ok result' twin) :=
  .ok ⟨checker, twin, twins, stable pair.related pair.twins twins first second⟩ first.later
    (related _ rfl)

/-- Both checkers give a layer the same number. -/
theorem couples_intern (stable : Stable memos) (pair : Pair memos) {layer layer' : Node}
    (related : Node.Related pair.first.types.Shares layer layer') :
    (lockstep memos).couples pair (onTypes (·.intern layer)) (onTypes (·.intern layer'))
      (lockstep memos).same := by
  obtain ⟨rfl, parts⟩ := TypeStore.node_related_shares_iff.mp related
  have ⟨canonical, tableWellFormed⟩ := pair.twins.wellFormed
  have extension := TypeStore.intern_extends pair.first.types layer'
  have typesEq := pair.twins.types_eq
  have first := Proceeds.ofTypes pair.first extension
  have second : pair.second.Proceeds
      { pair.second with types := (pair.first.types.intern layer').2 } :=
    .ofTypes _ (by rw [typesEq]; exact extension)
  simp only [lockstep, run_onTypes, typesEq]
  refine .advance stable first second
    (pair.twins.advance first second rfl pair.twins.reported_iff
      ⟨TypeStore.intern_canonical canonical parts, tableWellFormed.of_extends extension⟩) ?_
  rintro next nextEq
  rw [nextEq]
  exact ⟨rfl, (TypeStore.intern_holds canonical.toCoherent layer').1⟩

theorem couples_query (pair : Pair memos) {operation : CheckM α}
    (query : TypeStore → FeatureTable → Except Failure α)
    (runs : ∀ checker, operation.run checker =
      checker.answer (query checker.types checker.features)) {relation : Pair memos → α → α → Prop}
    (related : ∀ result, query pair.first.types pair.first.features = .ok result →
      relation pair result result) :
    (lockstep memos).couples pair operation operation relation := by
  simp only [lockstep, runs, pair.twins.types_eq, pair.twins.features_eq]
  cases answer : query pair.first.types pair.first.features with
  | ok result => exact .ok pair (.refl _) (related result answer)
  | error failure => exact .failed failure pair (.refl _)

theorem couples_feature (pair : Pair memos) (id : FeatureId) :
    (lockstep memos).couples pair (feature id) (feature id) fun pair' =>
      Feature.Related pair'.first.types.Shares :=
  couples_query pair (fun _ table => table.get id) (fun _ => run_readFeatures _ _)
    fun declared found =>
      (pair.twins.wellFormed.features_wellFormed id declared found).related declared.companion

theorem couples_record (stable : Stable memos) (pair : Pair memos) (event event' : Event) :
    (lockstep memos).couples pair (record event) (record event') (lockstep memos).Agrees := by
  obtain ⟨checker, runs, first, typesEq, reportsEq⟩ := Proceeds.record pair.first event
  obtain ⟨twin, runs', second, typesEq', reportsEq'⟩ := Proceeds.record pair.second event'
  have twins := pair.twins
  simp only [lockstep, runs, runs']
  refine .advance stable first second (twins.advance first second ?_ ?_ ⟨?_, ?_⟩) fun _ _ => rfl
  · rw [typesEq, typesEq', twins.types_eq]
  · rw [reportsEq, reportsEq', twins.reported_iff]
  · rw [typesEq]
    exact twins.wellFormed.types_canonical
  · rw [typesEq, first.features_eq]
    exact twins.wellFormed.features_wellFormed

/-- Checkers in lockstep are coupled if what relates their memo tables is stable. -/
theorem core (stable : Stable memos) : (lockstep memos).Core where
  later_refl pair := .refl _
  later_trans lower upper := lower.trans upper
  same_later shared later := shared.of_extends later.types_extend
  same_iff := by
    rintro pair left left' right right' ⟨rfl, _⟩ ⟨rfl, _⟩
    exact Iff.rfl
  same_error pair := ⟨rfl, pair.twins.wellFormed.types_canonical.error_exact.1⟩
  same_void pair := ⟨rfl, pair.twins.wellFormed.types_canonical.void_exact.1⟩
  same_undefined pair := ⟨rfl, pair.twins.wellFormed.types_canonical.undefined_exact.1⟩
  layer := by
    rintro pair types types' ty ty' ⟨rfl, rfl⟩ ⟨rfl, held⟩
    exact ⟨pair.twins.wellFormed.types_canonical.node_related held, rfl⟩
  child_lt := by
    rintro pair types types' ty ty' ⟨rfl, rfl⟩ ⟨rfl, held⟩
    have smaller := pair.twins.wellFormed.types_canonical.child_lt ty' held
    exact ⟨smaller, smaller⟩
  pure {_ _ pair _ _ _} related := .ok pair (.refl _) related
  bind coupled further := couples_bind coupled further
  fail {_ _ pair} failure _ := .failed failure pair (.refl _)
  read {_ _ pair query query' relation} related := by
    simp only [lockstep, run_readTypes, pair.twins.types_eq]
    exact .ok pair (.refl _) (related _ _ ⟨rfl, rfl⟩)
  intern {pair _ _} related := couples_intern stable pair related
  feature {pair} id := couples_feature pair id
  inherits {pair} heir ancestor :=
    couples_query pair (fun _ table => table.inheritsFrom heir ancestor)
      (fun _ => run_readFeatures _ _) fun _ _ => rfl
  display := by
    rintro pair ty ty' ⟨rfl, _⟩
    exact couples_query pair (fun types table => types.display table ty')
      (fun checker => run_display checker ty') fun _ _ => rfl
  record {pair} event event' := couples_record stable pair event event'

end Lockstep

end FeatureTypes

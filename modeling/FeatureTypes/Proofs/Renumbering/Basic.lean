import FeatureTypes.Proofs.Checker.Run
import FeatureTypes.Proofs.Checker.WellFormed
import FeatureTypes.Proofs.Memo.Basic
import FeatureTypes.Proofs.Renumbering.Features

/-!
# Runs under other numbers

Two checkers take corresponding steps, though each of them has its own numbers for the
types.
-/

namespace FeatureTypes

variable {key key' : SubstitutionKey}

/-! ## Memo tables -/

/-- The same question, in terms of the same types. -/
structure SubstitutionKey.Related (same : TypeId → TypeId → Prop) (key key' : SubstitutionKey) :
    Prop where
  target_same : same key.target key'.target
  owner_eq : key'.owner = key.owner
  actuals_same : List.Forall₂ same key.actuals key'.actuals

/-- The same question, in terms of the same types. -/
structure ViewKey.Related (same : TypeId → TypeId → Prop) (key key' : ViewKey) : Prop where
  source_same : same key.source key'.source
  target_same : same key.target key'.target

section

variable {same same' : TypeId → TypeId → Prop}

theorem SubstitutionKey.Related.imp (weaker : ∀ ty ty', same ty ty' → same' ty ty')
    (related : key.Related same key') : key.Related same' key' :=
  ⟨weaker _ _ related.target_same, related.owner_eq, related.actuals_same.imp weaker⟩

theorem ViewKey.Related.imp {key key' : ViewKey} (weaker : ∀ ty ty', same ty ty' → same' ty ty')
    (related : key.Related same key') : key.Related same' key' :=
  ⟨weaker _ _ related.source_same, weaker _ _ related.target_same⟩

theorem SubstitutionKey.Related.flip (flips : ∀ ty ty', same ty ty' → same' ty' ty)
    (related : key.Related same key') : key'.Related same' key :=
  ⟨flips _ _ related.target_same, related.owner_eq.symm, (related.actuals_same.imp flips).flip⟩

theorem ViewKey.Related.flip {key key' : ViewKey} (flips : ∀ ty ty', same ty ty' → same' ty' ty)
    (related : key.Related same key') : key'.Related same' key :=
  ⟨flips _ _ related.source_same, flips _ _ related.target_same⟩

variable (exact : ∀ {left left' right right'}, same left left' → same right right' →
  (left = right ↔ left' = right'))

include exact

theorem SubstitutionKey.Related.eq_iff {other other' : SubstitutionKey}
    (related : key.Related same key') (otherRelated : other.Related same other') :
    key = other ↔ key' = other' := by
  have targetIff := exact related.target_same otherRelated.target_same
  have actualsIff := forall₂_eq_iff exact related.actuals_same otherRelated.actuals_same
  have ownerEq := related.owner_eq
  have otherOwnerEq := otherRelated.owner_eq
  cases key
  cases key'
  cases other
  cases other'
  simp only [SubstitutionKey.mk.injEq] at targetIff actualsIff ownerEq otherOwnerEq ⊢
  rw [targetIff, actualsIff, ownerEq, otherOwnerEq]

theorem ViewKey.Related.eq_iff {key key' other other' : ViewKey} (related : key.Related same key')
    (otherRelated : other.Related same other') : key = other ↔ key' = other' := by
  have sourceIff := exact related.source_same otherRelated.source_same
  have targetIff := exact related.target_same otherRelated.target_same
  cases key
  cases key'
  cases other
  cases other'
  simp only [ViewKey.mk.injEq] at sourceIff targetIff ⊢
  rw [sourceIff, targetIff]

end

/-- The same results are remembered for the same questions. -/
structure Memo.Related {κ : Type} [Ord κ] (keys : κ → κ → Prop) (same : TypeId → TypeId → Prop)
    (memo memo' : Memo κ TypeId) : Prop where
  forth : ∀ key result, memo.entries[key]? = some result → ∃ key' result',
    keys key key' ∧ same result result' ∧ memo'.entries[key']? = some result'
  back : ∀ key' result', memo'.entries[key']? = some result' → ∃ key result,
    keys key key' ∧ same result result' ∧ memo.entries[key]? = some result

namespace Memo.Related

variable {κ : Type} [Ord κ] {keys keys' : κ → κ → Prop} {same same' : TypeId → TypeId → Prop}
  {memo memo' : Memo κ TypeId}

section

variable (related : memo.Related keys same memo')

include related

theorem imp (weakerKeys : ∀ key key', keys key key' → keys' key key')
    (weaker : ∀ ty ty', same ty ty' → same' ty ty') : memo.Related keys' same' memo' where
  forth key result found := by
    obtain ⟨key', result', keyRelated, resultSame, found'⟩ := related.forth key result found
    exact ⟨key', result', weakerKeys _ _ keyRelated, weaker _ _ resultSame, found'⟩
  back key' result' found' := by
    obtain ⟨key, result, keyRelated, resultSame, found⟩ := related.back key' result' found'
    exact ⟨key, result, weakerKeys _ _ keyRelated, weaker _ _ resultSame, found⟩

theorem flip (flipKeys : ∀ key key', keys key key' → keys' key' key)
    (flips : ∀ ty ty', same ty ty' → same' ty' ty) : memo'.Related keys' same' memo where
  forth key' result' found' := by
    obtain ⟨key, result, keyRelated, resultSame, found⟩ := related.back key' result' found'
    exact ⟨key, result, flipKeys _ _ keyRelated, flips _ _ resultSame, found⟩
  back key result found := by
    obtain ⟨key', result', keyRelated, resultSame, found'⟩ := related.forth key result found
    exact ⟨key', result', flipKeys _ _ keyRelated, flips _ _ resultSame, found'⟩

theorem consult (key key' : κ) : (memo.consult key).2.Related keys same (memo'.consult key').2 where
  forth := by simpa using related.forth
  back := by simpa using related.back

end

variable (exact : ∀ {key key' other other'}, keys key key' → keys other other' →
  (key = other ↔ key' = other'))

include exact

/-- Matching keys lead to matching results. -/
theorem lookup (related : memo.Related keys same memo') {key key' : κ}
    (keyRelated : keys key key') : Option.Rel same memo.entries[key]? memo'.entries[key']? := by
  cases found : memo.entries[key]? with
  | some result =>
    obtain ⟨other', result', otherRelated, resultSame, found'⟩ := related.forth key result found
    rw [(exact keyRelated otherRelated).mp rfl, found']
    exact .some resultSame
  | none =>
    cases found' : memo'.entries[key']? with
    | none => exact .none
    | some result' =>
      obtain ⟨other, result, otherRelated, _, found₁⟩ := related.back key' result' found'
      rw [← (exact keyRelated otherRelated).mpr rfl, found] at found₁
      cases found₁

variable [Std.TransOrd κ] [Std.LawfulEqOrd κ]

theorem remember (related : memo.Related keys same memo') {key key' : κ}
    (keyRelated : keys key key') {result result' : TypeId} (resultSame : same result result') :
    (memo.remember key result).Related keys same (memo'.remember key' result') := by
  -- Related keys are equal on both sides or on none, so the same entry is overwritten.
  refine ⟨?_, ?_⟩
  · intro other known found
    by_cases isKey : other = key
    · rw [isKey, remember_self] at found
      obtain rfl := Option.some.inj found
      exact ⟨key', result', isKey ▸ keyRelated, resultSame, remember_self _ _ _⟩
    · rw [remember_of_ne _ _ isKey] at found
      obtain ⟨other', known', otherRelated, knownSame, found'⟩ := related.forth other known found
      have isKey' : other' ≠ key' :=
        fun isKey' => isKey ((exact otherRelated keyRelated).mpr isKey')
      exact ⟨other', known', otherRelated, knownSame, (remember_of_ne _ _ isKey').trans found'⟩
  · intro other' known' found'
    by_cases isKey' : other' = key'
    · rw [isKey', remember_self] at found'
      obtain rfl := Option.some.inj found'
      exact ⟨key, result, isKey' ▸ keyRelated, resultSame, remember_self _ _ _⟩
    · rw [remember_of_ne _ _ isKey'] at found'
      obtain ⟨other, known, otherRelated, knownSame, found⟩ := related.back other' known' found'
      have isKey : other ≠ key := fun isKey => isKey' ((exact otherRelated keyRelated).mp isKey)
      exact ⟨other, known, otherRelated, knownSame, (remember_of_ne _ _ isKey).trans found⟩

end Memo.Related

/-! ## Checkers -/

/-- Two checkers that declare and remember the same and work alike, each with its own numbers
for the types. -/
structure Checker.Renumbered (checker other : Checker) : Prop where
  wellFormed : checker.WellFormed
  other_wellFormed : other.WellFormed
  features_renumbered :
    checker.features.Renumbered (checker.types.Matches other.types) other.features
  options_eq : other.options = checker.options
  recording_eq : other.journal.recording = checker.journal.recording
  reported_iff : 0 < other.reports.size ↔ 0 < checker.reports.size
  byOwner_related : checker.byOwner.Related
    (SubstitutionKey.Related (checker.types.Matches other.types))
    (checker.types.Matches other.types) other.byOwner
  viaType_related : checker.viaType.Related (ViewKey.Related (checker.types.Matches other.types))
    (checker.types.Matches other.types) other.viaType

namespace Checker.Renumbered

variable {checker other checker' other' : Checker} (renumbered : checker.Renumbered other)

include renumbered

theorem symm : other.Renumbered checker where
  wellFormed := renumbered.other_wellFormed
  other_wellFormed := renumbered.wellFormed
  features_renumbered := renumbered.features_renumbered.flip fun _ _ => .symm
  options_eq := renumbered.options_eq.symm
  recording_eq := renumbered.recording_eq.symm
  reported_iff := renumbered.reported_iff.symm
  byOwner_related :=
    renumbered.byOwner_related.flip (fun _ _ => .flip fun _ _ => .symm) fun _ _ => .symm
  viaType_related :=
    renumbered.viaType_related.flip (fun _ _ => .flip fun _ _ => .symm) fun _ _ => .symm

theorem matches_later (extension : checker.types.Extends checker'.types)
    (extension' : other.types.Extends other'.types) (canonical : checker'.types.Canonical)
    (canonical' : other'.types.Canonical) {ty ty' : TypeId}
    (matching : checker.types.Matches other.types ty ty') :
    checker'.types.Matches other'.types ty ty' :=
  matching.of_extends renumbered.wellFormed.types_canonical.toCoherent
    renumbered.other_wellFormed.types_canonical.toCoherent canonical.toCoherent
    canonical'.toCoherent extension extension'

theorem eq_iff {left left' right right' : TypeId}
    (leftMatches : checker.types.Matches other.types left left')
    (rightMatches : checker.types.Matches other.types right right') :
    left = right ↔ left' = right' :=
  leftMatches.eq_iff rightMatches renumbered.wellFormed.types_canonical.toCoherent
    renumbered.other_wellFormed.types_canonical.toCoherent

/-- Types may be added on both sides. -/
theorem advance (extension : checker.types.Extends checker'.types)
    (extension' : other.types.Extends other'.types) (canonical : checker'.types.Canonical)
    (canonical' : other'.types.Canonical)
    (restEq : checker' = { checker with
      types := checker'.types, journal := checker'.journal, reports := checker'.reports })
    (restEq' : other' = { other with
      types := other'.types, journal := other'.journal, reports := other'.reports })
    (recordingEq : other'.journal.recording = checker'.journal.recording)
    (reportedIff : 0 < other'.reports.size ↔ 0 < checker'.reports.size) :
    checker'.Renumbered other' := by
  have weaker := fun ty ty' => @matches_later _ _ _ _ renumbered extension extension' canonical
    canonical' ty ty'
  rw [restEq, restEq']
  exact {
    wellFormed := ⟨canonical, renumbered.wellFormed.features_wellFormed.of_extends extension⟩
    other_wellFormed :=
      ⟨canonical', renumbered.other_wellFormed.features_wellFormed.of_extends extension'⟩
    features_renumbered := renumbered.features_renumbered.imp weaker
    options_eq := renumbered.options_eq
    recording_eq := recordingEq
    reported_iff := reportedIff
    byOwner_related := renumbered.byOwner_related.imp (fun _ _ => .imp weaker) weaker
    viaType_related := renumbered.viaType_related.imp (fun _ _ => .imp weaker) weaker }

theorem withFeatures {table table' : FeatureTable} (wellFormed : table.WellFormed checker.types)
    (wellFormed' : table'.WellFormed other.types)
    (tables : table.Renumbered (checker.types.Matches other.types) table') :
    Renumbered { checker with features := table } { other with features := table' } where
  __ := renumbered
  wellFormed := ⟨renumbered.wellFormed.types_canonical, wellFormed⟩
  other_wellFormed := ⟨renumbered.other_wellFormed.types_canonical, wellFormed'⟩
  features_renumbered := tables

theorem withMemos {byOwner byOwner' : Memo SubstitutionKey TypeId}
    {viaType viaType' : Memo ViewKey TypeId}
    (byOwnerRelated : byOwner.Related (SubstitutionKey.Related (checker.types.Matches other.types))
      (checker.types.Matches other.types) byOwner')
    (viaTypeRelated : viaType.Related (ViewKey.Related (checker.types.Matches other.types))
      (checker.types.Matches other.types) viaType') :
    Renumbered { checker with byOwner, viaType }
      { other with byOwner := byOwner', viaType := viaType' } where
  __ := renumbered
  wellFormed := { renumbered.wellFormed with }
  other_wellFormed := { renumbered.other_wellFormed with }
  byOwner_related := byOwnerRelated
  viaType_related := viaTypeRelated

end Checker.Renumbered

/-! ## The coupling -/

namespace Renumbering

open Checker

/-- Two checkers with different numbers for the same types. -/
structure Pair where
  first : Checker
  second : Checker
  renumbered : first.Renumbered second

/-- Both checkers have gained types. -/
structure Pair.Later (pair next : Pair) : Prop where
  first_extends : pair.first.types.Extends next.first.types
  second_extends : pair.second.types.Extends next.second.types

theorem Pair.Later.refl (pair : Pair) : pair.Later pair :=
  ⟨.refl _, .refl _⟩

theorem Pair.Later.trans {first second third : Pair} (lower : first.Later second)
    (upper : second.Later third) : first.Later third :=
  ⟨lower.first_extends.trans upper.first_extends,
    lower.second_extends.trans upper.second_extends⟩

/-- The outcomes of two operations under different numbers. -/
abbrev Outcome {α β : Type} (pair : Pair) (relation : Pair → α → β → Prop) :=
  Coupling.Outcome Pair.Later Pair.first Pair.second pair relation

section

variable {α β : Type} {pair : Pair} {relation relation' : Pair → α → β → Prop}

theorem Outcome.step {checker other : Checker} {result : α} {result' : β}
    (renumbered : checker.Renumbered other) (extension : pair.first.types.Extends checker.types)
    (extension' : pair.second.types.Extends other.types)
    (related : relation ⟨checker, other, renumbered⟩ result result') :
    Outcome pair relation (.ok result checker) (.ok result' other) :=
  .ok (⟨checker, other, renumbered⟩ : Pair) ⟨extension, extension'⟩ related

theorem Outcome.weaken {outcome : EStateM.Result Failure Checker α}
    {outcome' : EStateM.Result Failure Checker β} (coupled : Outcome pair relation outcome outcome')
    (weaker : ∀ next result result', relation next result result' → relation' next result result') :
    Outcome pair relation' outcome outcome' := by
  cases coupled with
  | ok next later related => exact .ok next later (weaker next _ _ related)
  | failed failure next later => exact .failed failure next later
  | exhausted checker => exact .exhausted checker _

end

end Renumbering

open Renumbering in
/-- The coupling of checkers with different numbers for the same types. -/
def renumbering : Coupling where
  World := Pair
  later := Pair.Later
  same pair := pair.first.types.Matches pair.second.types
  stores pair types types' := types = pair.first.types ∧ types' = pair.second.types
  couples pair operation operation' relation :=
    Outcome pair relation (operation.run pair.first) (operation'.run pair.second)

namespace Renumbering

open Checker

variable {pair : Pair}

theorem couples_bind {α β γ δ : Type} {operation : CheckM α} {operation' : CheckM β}
    {next : α → CheckM γ} {next' : β → CheckM δ} {relation : Pair → α → β → Prop}
    {relation' : Pair → γ → δ → Prop}
    (coupled : renumbering.couples pair operation operation' relation)
    (further : ∀ pair' result result', renumbering.later pair pair' →
      relation pair' result result' →
        renumbering.couples pair' (next result) (next' result') relation') :
    renumbering.couples pair (operation >>= next) (operation' >>= next') relation' :=
  Coupling.Outcome.bind .trans coupled fun pair' result result' later _ =>
    further pair' result result' later

theorem couples_query {α : Type} {operation operation' : CheckM α} {found found' : Except Failure α}
    (run : operation.run pair.first = pair.first.answer found)
    (run' : operation'.run pair.second = pair.second.answer found') (foundEq : found' = found) :
    renumbering.couples pair operation operation' renumbering.Agrees := by
  simp only [renumbering, run, run', foundEq]
  cases found with
  | ok result => exact .ok pair (.refl pair) rfl
  | error failure => exact .failed failure pair (.refl pair)

theorem couples_feature (id : FeatureId) :
    renumbering.couples pair (feature id) (feature id) fun pair' declared declared' =>
      declared.Renumbered (pair'.first.types.Matches pair'.second.types) declared' := by
  simp only [renumbering, feature, run_readFeatures]
  rcases pair.renumbered.features_renumbered.get_cases id with ⟨missing, missing'⟩ |
    ⟨declared, declared', found, found', related⟩
  · rw [missing, missing']
    exact .failed _ pair (.refl pair)
  · rw [found, found']
    exact .ok pair (.refl pair) related

/-- Matching layers get matching numbers. -/
theorem couples_intern {layer layer' : Node}
    (related : Node.Related (pair.first.types.Matches pair.second.types) layer layer') :
    renumbering.couples pair (onTypes (·.intern layer)) (onTypes (·.intern layer'))
      renumbering.same := by
  have renumbered := pair.renumbered
  have canonical := renumbered.wellFormed.types_canonical
  have canonical' := renumbered.other_wellFormed.types_canonical
  obtain ⟨parts, parts', _⟩ := TypeStore.node_related_matches_iff.mp related
  have extension := TypeStore.intern_extends pair.first.types layer
  have extension' := TypeStore.intern_extends pair.second.types layer'
  simp only [renumbering, run_onTypes]
  refine .step (renumbered.advance extension extension'
    (TypeStore.intern_canonical canonical parts) (TypeStore.intern_canonical canonical' parts')
    rfl rfl renumbered.recording_eq renumbered.reported_iff) extension extension' ?_
  exact TypeStore.matches_intern canonical canonical' related

theorem couples_record (event event' : Event) :
    renumbering.couples pair (record event) (record event') renumbering.Agrees := by
  have renumbered := pair.renumbered
  simp only [renumbering, run_record, renumbered.recording_eq]
  split
  · exact .step (renumbered.advance (.refl _) (.refl _) renumbered.wellFormed.types_canonical
      renumbered.other_wellFormed.types_canonical rfl rfl rfl renumbered.reported_iff) (.refl _)
      (.refl _) rfl
  · exact .ok pair (.refl pair) rfl

/-- Numbers do not matter to the operations on types. -/
theorem core : renumbering.Core where
  later_refl := .refl
  later_trans lower upper := lower.trans upper
  same_later {pair next _ _} matching later := pair.renumbered.matches_later later.first_extends
    later.second_extends next.renumbered.wellFormed.types_canonical
    next.renumbered.other_wellFormed.types_canonical matching
  same_iff {pair _ _ _ _} leftMatches rightMatches :=
    pair.renumbered.eq_iff leftMatches rightMatches
  same_error pair := TypeStore.matches_error pair.renumbered.wellFormed.types_canonical
    pair.renumbered.other_wellFormed.types_canonical
  same_void pair := TypeStore.matches_void pair.renumbered.wellFormed.types_canonical
    pair.renumbered.other_wellFormed.types_canonical
  same_undefined pair := TypeStore.matches_undefined pair.renumbered.wellFormed.types_canonical
    pair.renumbered.other_wellFormed.types_canonical
  layer := by
    rintro pair types types' ty ty' ⟨rfl, rfl⟩ matching
    have coherent := pair.renumbered.wellFormed.types_canonical.toCoherent
    have coherent' := pair.renumbered.other_wellFormed.types_canonical.toCoherent
    exact ⟨matching.layer coherent coherent', matching.flags_eq coherent coherent'⟩
  child_lt := by
    rintro pair types types' ty ty' ⟨rfl, rfl⟩ ⟨held, held', _⟩
    exact ⟨pair.renumbered.wellFormed.types_canonical.child_lt ty held,
      pair.renumbered.other_wellFormed.types_canonical.child_lt ty' held'⟩
  pure {_ _ pair _ _ _} related := .ok pair (.refl pair) related
  bind coupled further := couples_bind coupled further
  fail {_ _ pair} failure _ := .failed failure pair (.refl pair)
  read {_ _ pair query query' relation} related := by
    simp only [renumbering, run_readTypes]
    exact .ok pair (.refl pair) (related _ _ ⟨rfl, rfl⟩)
  intern related := couples_intern related
  feature id := (couples_feature id).weaken fun _ _ _ related => related.toRelated
  inherits {pair} heir ancestor := couples_query (run_readFeatures _ _) (run_readFeatures _ _)
    (pair.renumbered.features_renumbered.inheritsFrom_eq heir ancestor)
  display {pair _ _} matching := couples_query (run_display _ _) (run_display _ _)
    (TypeStore.display_of_matches pair.renumbered.wellFormed.types_canonical.toCoherent
      pair.renumbered.other_wellFormed.types_canonical.toCoherent
      pair.renumbered.features_renumbered matching)
  record event event' := couples_record event event'

end Renumbering

end FeatureTypes

import FeatureTypes.Proofs.Coupling.Declaration
import FeatureTypes.Proofs.Lockstep.Basic

/-!
# Declarations in lockstep

What was known about the memo tables survives as long as it does not depend on the features
that a declaration changes.
-/

namespace FeatureTypes

variable {memos : Checker → Checker → Prop}

/-- Every feature that is not free stays as it is, up to its companion. -/
structure FeatureTable.Keeps (free : FeatureId → Prop) (table table' : FeatureTable) : Prop where
  typeRoot_eq : table'.typeRoot = table.typeRoot
  get_eq : ∀ id declared, ¬ free id → table.get id = .ok declared →
    ∃ companion, table'.get id = .ok { declared with companion }

theorem FeatureTable.Update.keeps {free : FeatureId → Prop} {table table' : FeatureTable}
    {id : FeatureId} {declared : Feature} (update : table.Update table' id declared)
    (allowed : ∀ before, ¬ free id → table.get id = .ok before →
      ∃ companion, declared = { before with companion }) : table.Keeps free table' := by
  refine ⟨update.typeRoot_eq, ?_⟩
  intro other before bound found
  by_cases isUpdated : other = id
  · obtain rfl := isUpdated
    obtain ⟨companion, rfl⟩ := allowed before bound found
    exact ⟨companion, update.get_self⟩
  · exact ⟨before.companion, (update.get_other other isUpdated).trans found⟩

namespace Lockstep

open Checker Coupling

/-- The relation between the memo tables is kept if both checkers get the features. -/
def Pair.Allows (pair : Pair memos) (table : FeatureTable) : Prop :=
  memos { pair.first with features := table } { pair.second with features := table }

/-- The relation between the memo tables survives what declarations do to the free features,
and new features are free. -/
structure Writable (memos : Checker → Checker → Prop) (free : FeatureId → Prop) : Prop where
  stable : Stable memos
  feature : ∀ {pair : Pair memos} {name : String} {outer id : FeatureId} {isRef : Bool}
    {origin : Option FeatureId} {table : FeatureTable},
    (∀ owner, origin = some owner → pair.first.features.DeclaresPlain owner) →
      pair.first.features.declare name outer isRef origin = .ok (id, table) →
        free id ∧ pair.Allows table
  formal : ∀ {pair : Pair memos} {owner : FeatureId} {name : String} {constraint : TypeId}
    {isOpen : Bool} {span : Span} {id : FormalId} {table : FeatureTable}, free owner →
      pair.first.features.addFormal owner name constraint isOpen span = .ok (id, table) →
        pair.Allows table
  parent : ∀ {before pair : Pair memos} {heir ancestor : FeatureId} {actuals : List TypeId}
    {ty : TypeId} {table : FeatureTable}, free heir →
      (∀ actual ∈ actuals, before.first.types.Holds actual) →
        (instantiate ancestor actuals).run before.first = .ok ty pair.first →
          pair.first.features.modify heir (fun feature =>
            { feature with parents := feature.parents ++ [⟨ancestor, actuals, ty⟩] }) = .ok table →
          pair.Allows table
  summands : ∀ {pair : Pair memos} {id : FeatureId} {summands : List TypeId} {table : FeatureTable},
    free id →
      pair.first.features.modify id (fun feature => { feature with summands := some summands }) =
        .ok table → pair.Allows table
  companion : ∀ {pair : Pair memos} {origin companion : FeatureId} {table : FeatureTable},
    pair.first.features.modify origin
      (fun feature => { feature with companion := some companion }) = .ok table →
        pair.Allows table

theorem Writable.of_keeps {free : FeatureId → Prop} (stable : Stable memos)
    (fresh : ∀ (pair : Pair memos) (id : FeatureId), pair.first.features.size ≤ id.index → free id)
    (rewrite : ∀ (pair : Pair memos) (table : FeatureTable),
      pair.first.features.Keeps free table → pair.Allows table) : Writable memos free where
  stable := stable
  feature {pair} _ _ _ _ _ _ _ declared := by
    obtain ⟨rfl, _, _, update⟩ := FeatureTable.declare_update declared
    refine ⟨fresh pair _ (Nat.le_refl _), rewrite pair _ (update.keeps ?_)⟩
    intro before _ found
    exact absurd (FeatureTable.index_lt_size found) (Nat.lt_irrefl _)
  formal {pair} _ _ _ _ _ _ _ isFree added := by
    obtain ⟨_, _, _, update⟩ := FeatureTable.addFormal_update added
    exact rewrite pair _ (update.keeps fun _ bound => absurd isFree bound)
  parent {_ pair} _ _ _ _ _ isFree _ _ modified := by
    obtain ⟨_, _, update⟩ := FeatureTable.modify_update modified
    exact rewrite pair _ (update.keeps fun _ bound => absurd isFree bound)
  summands {pair} _ _ _ isFree modified := by
    obtain ⟨_, _, update⟩ := FeatureTable.modify_update modified
    exact rewrite pair _ (update.keeps fun _ bound => absurd isFree bound)
  companion {pair} _ companion _ modified := by
    obtain ⟨declared, found, update⟩ := FeatureTable.modify_update modified
    refine rewrite pair _ (update.keeps ?_)
    intro before _ foundBefore
    obtain rfl : declared = before := Except.ok.inj (found.symm.trans foundBefore)
    exact ⟨some companion, rfl⟩

/-! ## Changes of the features -/

section

variable {memos : Checker → Checker → Prop} {pair : Pair memos}

/-- Both tables change alike, if the memo tables allow for it. -/
theorem couples_onFeatures {α : Type} {operation : FeatureTable → Except Failure (α × FeatureTable)}
    (kept : ∀ result table, operation pair.first.features = .ok (result, table) →
      table.WellFormed pair.first.types ∧ pair.first.features.Develops table ∧ pair.Allows table) :
    (lockstep memos).couples pair (onFeatures operation) (onFeatures operation)
      fun next result result' => result' = result ∧
        operation pair.first.features = .ok (result, next.first.features) := by
  have twins := pair.twins
  simp only [lockstep, run_onFeatures, twins.features_eq]
  cases outcome : operation pair.first.features with
  | error failure => exact .failed failure pair (.refl _)
  | ok changed =>
    obtain ⟨result, table⟩ := changed
    obtain ⟨wellFormed, develops, allowed⟩ := kept result table outcome
    have twins' : Twins { pair.first with features := table }
        { pair.second with features := table } :=
      { twins with
        features_eq := rfl
        wellFormed := ⟨twins.wellFormed.types_canonical, wellFormed⟩ }
    exact .ok (⟨_, _, twins', allowed⟩ : Pair memos)
      ⟨TypeStore.Extends.refl pair.first.types, develops⟩ ⟨rfl, rfl⟩

theorem couples_modifyFeature (core : (lockstep memos).Core) {id : FeatureId}
    {edit : Feature → Feature}
    (wellFormed : ∀ declared, declared.WellFormed pair.first.types id →
      (edit declared).WellFormed pair.first.types id)
    (develops : ∀ declared : Feature, declared.Develops (edit declared))
    (allowed : ∀ table, pair.first.features.modify id edit = .ok table → pair.Allows table) :
    (lockstep memos).couples pair (modifyFeature id edit) (modifyFeature id edit)
      (lockstep memos).Agrees := by
  refine core.consequence (couples_onFeatures ?_) fun _ _ _ _ outcome => outcome.1
  intro _ table modified
  obtain ⟨table', modification, result⟩ := except_bind_eq_ok modified
  obtain ⟨_, rfl⟩ := Prod.mk.inj (Except.ok.inj result)
  obtain ⟨declared, found, update⟩ := FeatureTable.modify_update modification
  have tableWellFormed := pair.twins.wellFormed.features_wellFormed
  exact ⟨tableWellFormed.update update (wellFormed declared (tableWellFormed _ _ found)),
    update.develops found (develops declared), allowed _ modification⟩

end

section

variable {memos : Checker → Checker → Prop} {free : FeatureId → Prop}
  (writable : Writable memos free) {pair : Pair memos}

include writable

theorem couples_declare (name : String) (outer : FeatureId) (isRef : Bool)
    {origin : Option FeatureId}
    (plain : ∀ owner, origin = some owner → pair.first.features.DeclaresPlain owner) :
    (lockstep memos).couples pair (onFeatures (·.declare name outer isRef origin))
      (onFeatures (·.declare name outer isRef origin)) fun _ id id' => id' = id ∧ free id := by
  refine (core writable.stable).consequence (couples_onFeatures ?_) ?_
  · intro id table declared
    obtain ⟨_, qualifiedName, _, update⟩ := FeatureTable.declare_update declared
    exact ⟨pair.twins.wellFormed.features_wellFormed.update update (.new ..),
      FeatureTable.develops_of_declare declared, (writable.feature plain declared).2⟩
  · rintro next id _ _ ⟨rfl, declared⟩
    exact ⟨rfl, (writable.feature plain declared).1⟩

section

variable {constraint constraint' : TypeId} {feature : FeatureId} (isFree : free feature)
  (name : String) (constraintSame : (lockstep memos).same pair constraint constraint')
  (isOpen : Bool) (span : Span)

include isFree name constraintSame isOpen span

theorem couples_addFormal :
    (lockstep memos).couples pair (addFormal feature name constraint isOpen span)
      (addFormal feature name constraint' isOpen span) (lockstep memos).Agrees := by
  obtain ⟨rfl, held⟩ := constraintSame
  refine (core writable.stable).consequence (couples_onFeatures ?_) fun _ _ _ _ outcome => outcome.1
  intro id table added
  obtain ⟨declared, found, idEq, update⟩ := FeatureTable.addFormal_update added
  have wellFormed := pair.twins.wellFormed.features_wellFormed
  exact ⟨wellFormed.update update ((wellFormed _ _ found).withFormal idEq held),
    FeatureTable.develops_of_addFormal added, writable.formal isFree added⟩

/-! ## Declarations -/

theorem couples_declareFormal :
    (lockstep memos).couples pair (declareFormal feature name constraint isOpen span)
      (declareFormal feature name constraint' isOpen span) (lockstep memos).same := by
  have core := core writable.stable
  refine core.bind_agrees
    (couples_addFormal writable isFree name constraintSame isOpen span) ?_
  intro pair' id _
  exact core.formal id

end

theorem couples_declareParent {heir : FeatureId} (isFree : free heir) (ancestor : FeatureId)
    {actuals actuals' : List TypeId}
    (sameActuals : List.Forall₂ ((lockstep memos).same pair) actuals actuals') :
    (lockstep memos).couples pair (declareParent heir ancestor actuals)
      (declareParent heir ancestor actuals') (lockstep memos).Agrees := by
  have core := core writable.stable
  refine couples_bind_run (core.instantiate ancestor sameActuals) ?_
  rintro pair₁ ty _ step₁ run ⟨rfl, tyHeld⟩
  obtain ⟨rfl, actualsHeld⟩ := TypeStore.forall₂_shares_iff.mp sameActuals
  have actualsHeld₁ : ∀ actual ∈ actuals', pair₁.first.types.Holds actual :=
    fun actual member => step₁.holds (actualsHeld actual member)
  exact couples_modifyFeature core (fun declared wellFormed =>
    wellFormed.withParent actualsHeld₁ tyHeld) (fun _ => .withParent _ _)
    fun _ modified => writable.parent isFree actualsHeld run modified

theorem couples_declareChoice {id : FeatureId} (isFree : free id) {summands summands' : List TypeId}
    (sameSummands : List.Forall₂ ((lockstep memos).same pair) summands summands') :
    (lockstep memos).couples pair (declareChoice id summands) (declareChoice id summands')
      (lockstep memos).Agrees := by
  obtain ⟨rfl, held⟩ := TypeStore.forall₂_shares_iff.mp sameSummands
  exact couples_modifyFeature (core writable.stable)
    (fun declared wellFormed => wellFormed.withSummands held) (fun _ => .of_eq rfl rfl rfl)
    fun _ modified => writable.summands isFree modified

/-! ## Creating companions -/

omit writable in
theorem couples_typeRoot? :
    (lockstep memos).couples pair typeRoot? typeRoot? (lockstep memos).Agrees :=
  couples_query pair (fun _ table => .ok table.typeRoot) (fun _ => rfl) fun _ _ => rfl

theorem declaring :
    (lockstep memos).Declaring free fun pair id => pair.first.features.DeclaresPlain id where
  toCore := core writable.stable
  plain_later plain later := plain.of_develops later.features_develop
  look {pair} id := couples_query pair (fun _ table => table.get id) (fun _ => run_readFeatures _ _)
    fun declared found => ⟨⟨rfl, rfl, rfl⟩, fun plain => ⟨declared, found, plain⟩⟩
  typeRoot := couples_typeRoot?
  declareCompanion name outer plain := couples_declare writable name outer false
    fun _ isOrigin => Option.some.inj isOrigin ▸ plain
  addFormal name isOpen span isFree same := couples_addFormal writable isFree name same isOpen span
  declareParent ancestor isFree same := couples_declareParent writable isFree ancestor same
  linkCompanion _ _ := couples_modifyFeature (core writable.stable)
    (fun _ wellFormed => wellFormed.withCompanion _) (fun _ => .of_eq rfl rfl rfl)
    fun _ modified => writable.companion modified

end

/-! ## Companions and memo tables -/

/-- Both checkers have advanced from where they were. -/
def Since (start start' : Checker) (checker twin : Checker) : Prop :=
  start.Advances checker ∧ start'.Advances twin

theorem Advances.withFeatures {start checker : Checker} (advance : start.Advances checker)
    {table : FeatureTable}
    (keeps : checker.features.Keeps (fun id => start.features.size ≤ id.index) table) :
    start.Advances { checker with features := table } where
  __ := advance
  features_grow := by
    refine ⟨keeps.typeRoot_eq.trans advance.features_grow.typeRoot_eq, ?_⟩
    intro id declared found
    obtain ⟨companion, foundLater⟩ := advance.features_grow.get_eq id declared found
    have bound : ¬ start.features.size ≤ id.index :=
      Nat.not_le_of_lt (FeatureTable.index_lt_size found)
    obtain ⟨companion', kept⟩ := keeps.get_eq id _ bound foundLater
    exact ⟨companion', kept⟩

theorem writable_since {start start' : Checker} (featuresEq : start'.features = start.features) :
    Writable (Since start start') fun id => start.features.size ≤ id.index := by
  refine .of_keeps ?_ ?_ ?_
  · intro checker twin checker' twin' since _ _ first second
    exact ⟨since.1.trans first.toAdvances, since.2.trans second.toAdvances⟩
  · intro pair id bound
    exact Nat.le_trans pair.related.1.features_grow.size_le bound
  · intro pair table keeps
    refine ⟨Advances.withFeatures pair.related.1 keeps,
      Advances.withFeatures pair.related.2 ?_⟩
    rw [pair.twins.features_eq, featuresEq]
    exact keeps

/-- A pair as the start of its own history. -/
def Pair.start {memos : Checker → Checker → Prop} (pair : Pair memos) :
    Pair (Since pair.first pair.second) :=
  ⟨pair.first, pair.second, pair.twins, .refl _, .refl _⟩

/-- The relation between the memo tables survives the growth of both checkers. -/
def Growing (memos : Checker → Checker → Prop) : Prop :=
  ∀ {checker twin checker' twin' : Checker},
    memos checker twin → checker.Twins twin → checker'.Twins twin' →
      checker.Advances checker' → twin.Advances twin' → memos checker' twin'

theorem Growing.stable (growing : Growing memos) : Stable memos :=
  fun related twins twins' first second =>
    growing related twins twins' first.toAdvances second.toAdvances

/-- What survives growth survives the creation of companions. -/
theorem Growing.couples_companionWithin (growing : Growing memos) {pair : Pair memos} (depth : Nat)
    (id : FeatureId) :
    (lockstep memos).couples pair (companionWithin depth id) (companionWithin depth id)
      (lockstep memos).Agrees := by
  have coupled : (lockstep (Since pair.first pair.second)).couples pair.start
      (companionWithin depth id) (companionWithin depth id) (lockstep _).Agrees :=
    (declaring (writable_since pair.twins.features_eq)).companionWithin depth id
  change Outcome pair.start _ (EStateM.run _ pair.first) (EStateM.run _ pair.second) at coupled
  change Outcome pair _ (EStateM.run _ pair.first) (EStateM.run _ pair.second)
  generalize (companionWithin depth id).run pair.first = outcome at coupled ⊢
  generalize (companionWithin depth id).run pair.second = outcome' at coupled ⊢
  have grown (next : Pair (Since pair.first pair.second)) : memos next.first next.second :=
    growing pair.related pair.twins next.twins next.related.1 next.related.2
  cases coupled with
  | ok next later agree => exact .ok (⟨_, _, next.twins, grown next⟩ : Pair memos) later agree
  | failed failure next later =>
    exact .failed failure (⟨_, _, next.twins, grown next⟩ : Pair memos) later
  | exhausted checker => exact .exhausted checker _

theorem couples_companion? (growing : Growing memos) {pair : Pair memos} (id : FeatureId) :
    (lockstep memos).couples pair (companion? id) (companion? id) (lockstep memos).Agrees :=
  growing.couples_companionWithin (id.index + 1) id

end Lockstep

end FeatureTypes

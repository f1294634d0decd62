import FeatureTypes.Proofs.Lockstep.Marked
import FeatureTypes.Proofs.Meaning.Substitution

/-!
# What is remembered stays right

A checker that has grown follows fewer signatures, so what it remembers stays right for all
of them.
-/

namespace FeatureTypes

variable {start checker : Checker}

namespace Checker

/-! ## The signature of a checker -/

/-- What the checker declares. -/
def signature (checker : Checker) : Signature where
  feature id := (checker.features.get id).toOption.map (Feature.outline checker.types.tree)
  inherits heir ancestor := (checker.features.inheritsFrom heir ancestor).toOption

theorem signature_feature_eq_some_iff {id : FeatureId} {outline : Outline} :
    checker.signature.feature id = some outline ↔
      ∃ declared, checker.features.get id = .ok declared ∧
        declared.outline checker.types.tree = outline := by
  simp only [signature, Option.map_eq_some_iff]
  refine exists_congr fun declared => and_congr_left fun _ => ?_
  cases checker.features.get id <;> simp [Except.toOption]

theorem follows_signature (checker : Checker) : checker.Follows checker.signature where
  feature_eq id declared found := by simp [signature, found, Except.toOption]
  inherits_eq heir ancestor answer answered := by simp [signature, answered, Except.toOption]

theorem Follows.of_eq {other : Checker} {signature : Signature}
    (follows : checker.Follows signature) (typesEq : other.types = checker.types)
    (featuresEq : other.features = checker.features) : other.Follows signature where
  feature_eq := by
    rw [typesEq, featuresEq]
    exact follows.feature_eq
  inherits_eq := by
    rw [featuresEq]
    exact follows.inherits_eq

theorem Follows.of_grows {later : Checker} {signature : Signature}
    (follows : later.Follows signature) (wellFormed : checker.WellFormed)
    (coherent : later.types.Coherent) (extension : checker.types.Extends later.types)
    (growth : checker.features.Grows later.features) : checker.Follows signature where
  feature_eq id declared found := by
    obtain ⟨companion, foundLater⟩ := growth.get_eq id declared found
    rw [follows.feature_eq id _ foundLater, ← outline_eq_of_extends
      wellFormed.types_canonical.toCoherent coherent extension
      (wellFormed.features_wellFormed id declared found)]
    rfl
  inherits_eq heir ancestor answer answered :=
    follows.inherits_eq heir ancestor answer (growth.inheritsFrom_eq answered)

/-! ## Faithful memo tables -/

/-- The checker obeys every signature that it follows: it is well-formed, and where it goes by
its memo tables, what it remembers is right.  Nothing is asked of the reports, so this lasts when
they are drained. -/
def Faithful (checker : Checker) : Prop :=
  ∀ signature, checker.Follows signature → checker.Obeys signature

/-- The checker with another depth limit. -/
def limited (checker : Checker) (depthLimit : Nat) : Checker :=
  { checker with options := { checker.options with depthLimit } }

/-- Empty memo tables are faithful. -/
theorem WellFormed.faithful_of_empty (wellFormed : checker.WellFormed)
    (byOwner : checker.byOwner.entries.isEmpty = true)
    (viaType : checker.viaType.entries.isEmpty = true) : checker.Faithful := by
  intro signature follows
  refine ⟨wellFormed, follows, fun _ => ⟨?_, ?_⟩⟩
  · intro key result found
    simp [Std.TreeMap.getElem?_of_isEmpty byOwner] at found
  · intro key result found
    simp [Std.TreeMap.getElem?_of_isEmpty viaType] at found

theorem Reachable.faithful (reachable : checker.Reachable)
    (empty : (checker.byOwner.entries.isEmpty && checker.viaType.entries.isEmpty) = true) :
    checker.Faithful := by
  rw [Bool.and_eq_true] at empty
  exact reachable.sound.toWellFormed.faithful_of_empty empty.1 empty.2

namespace Faithful

variable {checker later : Checker} (faithful : checker.Faithful)

include faithful

theorem wellFormed : checker.WellFormed :=
  (faithful checker.signature checker.follows_signature).toWellFormed

theorem grow (wellFormed : later.WellFormed) (extension : checker.types.Extends later.types)
    (growth : checker.features.Grows later.features)
    (memoizeEq : later.options.memoize = checker.options.memoize)
    (byOwnerEq : later.byOwner.entries = checker.byOwner.entries)
    (viaTypeEq : later.viaType.entries = checker.viaType.entries) : later.Faithful := by
  intro signature follows
  have coherent := wellFormed.types_canonical.toCoherent
  have obeys := faithful signature
    (follows.of_grows faithful.wellFormed coherent extension growth)
  refine ⟨wellFormed, follows, fun on => ?_⟩
  rw [memoizeEq] at on
  exact (obeys.memos_mean on).of_extends obeys.types_canonical.toCoherent coherent extension
    byOwnerEq viaTypeEq

theorem sound : checker.Sound :=
  (faithful checker.signature checker.follows_signature).sound

theorem limited (depthLimit : Nat) : (checker.limited depthLimit).Faithful :=
  faithful.grow { faithful.wellFormed with } (.refl _) (.refl _) rfl rfl rfl

theorem of_run {α : Type} {operation : CheckM α}
    (finds : ∀ signature, checker.Obeys signature →
      Finds signature checker operation fun _ _ => True) (result : α)
    (run : operation.run checker = .ok result later) : later.Faithful := by
  have obeysOwn := faithful checker.signature checker.follows_signature
  obtain ⟨laterObeys, onward, _⟩ := finds checker.signature obeysOwn result later run
  intro signature follows
  have growth : checker.features.Grows later.features := by
    rw [onward.features_eq]
    exact .refl _
  have earlier := follows.of_grows obeysOwn.toWellFormed laterObeys.types_canonical.toCoherent
    onward.types_extend growth
  exact (finds signature (faithful signature earlier) result later run).1

end Faithful

end Checker

/-! ## Faithful memo tables last -/

namespace Lockstep

open Checker Coupling

theorem finds_byOwner {signature : Signature} (obeys : checker.Obeys signature) (depth : Nat)
    (owner : FeatureId) {actuals : List TypeId} {target : TypeId}
    (actualsHeld : ∀ actual ∈ actuals, checker.types.Holds actual)
    (targetHeld : checker.types.Holds target) :
    Finds signature checker (do
      rememberByOwner ⟨target, owner, actuals⟩
        (← substituteStep (substituteWithin depth) owner actuals target)) fun _ _ => True := by
  have denote : List.Forall₂ checker.types.Denotes actuals (actuals.map checker.types.tree) :=
    TypeStore.Denotes.forall₂_iff.mpr ⟨actualsHeld, rfl⟩
  have denotes : checker.types.Denotes target (checker.types.tree target) := ⟨targetHeld, rfl⟩
  refine .bind (means_substituteStep depth obeys denotes owner denote).finds ?_
  rintro after result obeys' onward ⟨value, prescribed, resultDenotes⟩
  exact finds_rememberByOwner obeys' (obeys.denotesAll obeys' onward denote)
    (obeys.denotes obeys' onward denotes) resultDenotes prescribed

theorem finds_viaType {signature : Signature} (obeys : checker.Obeys signature) (depth : Nat)
    {source target : TypeId} (sourceHeld : checker.types.Holds source)
    (targetHeld : checker.types.Holds target) :
    Finds signature checker (do
      rememberViaType ⟨source, target⟩
        (← viewStep (substituteWithin depth) (substituteViaWithin depth) source target))
      fun _ _ => True := by
  have sourceDenotes : checker.types.Denotes source (checker.types.tree source) :=
    ⟨sourceHeld, rfl⟩
  have denotes : checker.types.Denotes target (checker.types.tree target) := ⟨targetHeld, rfl⟩
  refine .bind (means_viewStep depth obeys denotes sourceDenotes).finds ?_
  rintro after result obeys' onward ⟨value, prescribed, resultDenotes⟩
  exact finds_rememberViaType obeys' (obeys.denotes obeys' onward sourceDenotes)
    (obeys.denotes obeys' onward denotes) resultDenotes prescribed

theorem lasts_faithful : Lasts FeatureTable.Grows Faithful :=
  fun faithful _ => faithful.grow

theorem lasting_faithful : Lasting Faithful where
  grow := lasts_faithful.of_grows
  companion id := couples_companion? (marked_growing lasts_faithful) id
  byOwner {checker after} depth owner actuals target result _ faithful _ _ actualsHeld targetHeld
      run := by
    refine faithful.of_run
      (fun signature obeys => finds_byOwner obeys depth owner actualsHeld targetHeld) () ?_
    rw [EStateM.run_bind, run]
    rfl
  viaType {checker after} depth source target result _ faithful _ _ sourceHeld targetHeld run := by
    refine faithful.of_run
      (fun signature obeys => finds_viaType obeys depth sourceHeld targetHeld) () ?_
    rw [EStateM.run_bind, run]
    rfl

/-! ## Operations -/

/-- Memo tables stay faithful through every operation that declares nothing. -/
theorem after_faithful (faithful : checker.Faithful) (operation : Operation)
    (held : ∀ ty ∈ operation.uses, checker.types.Holds ty)
    (completes : operation.completes checker = true)
    (unchanged : (operation.after checker).features = checker.features) :
    (operation.after checker).Faithful ∧
      checker.types.Extends (operation.after checker).types := by
  refine (after_marked lasting_faithful faithful.sound faithful
    (fun _ wellFormed _ _ => wellFormed.faithful_of_empty) operation held completes ?_).2
  intro _ _ wellFormed retains
  refine faithful.grow wellFormed retains.types_extend ?_ (by rw [retains.options_eq])
    (by rw [retains.byOwner_eq]) (by rw [retains.viaType_eq])
  rw [unchanged]
  exact .refl _

end Lockstep

/-! ## Histories -/

namespace Checker

/-- The checkers that operations on stored types lead to from `start` while the features stay
as they are. -/
inductive Continues (start : Checker) : Checker → Prop
  | refl : Continues start start
  | step {checker : Checker} (continues : Continues start checker) (operation : Operation)
      (held : ∀ ty ∈ operation.uses, checker.types.Holds ty)
      (completes : operation.completes checker = true)
      (unchanged : (operation.after checker).features = checker.features) :
      Continues start (operation.after checker)

/-- Memo tables stay faithful as long as no feature is declared, reports drained or not. -/
theorem Continues.faithful (faithful : start.Faithful) (continues : start.Continues checker) :
    checker.Faithful ∧ start.types.Extends checker.types ∧ checker.features = start.features := by
  induction continues with
  | refl => exact ⟨faithful, .refl _, rfl⟩
  | step _ operation held completes unchanged ih =>
    obtain ⟨earlier, extension, featuresEq⟩ := ih
    obtain ⟨later, extension'⟩ :=
      Lockstep.after_faithful earlier operation held completes unchanged
    exact ⟨later, extension.trans extension', unchanged.trans featuresEq⟩

theorem Follows.of_extends {signature : Signature} (follows : start.Follows signature)
    (wellFormed : start.WellFormed) (coherent : checker.types.Coherent)
    (extension : start.types.Extends checker.types)
    (featuresEq : checker.features = start.features) : checker.Follows signature where
  feature_eq := by
    rw [featuresEq]
    intro id declared found
    rw [outline_eq_of_extends wellFormed.types_canonical.toCoherent coherent extension
      (wellFormed.features_wellFormed id declared found)]
    exact follows.feature_eq id declared found
  inherits_eq := by
    rw [featuresEq]
    exact follows.inherits_eq

theorem Continues.obeys (faithful : start.Faithful) (continues : start.Continues checker) :
    checker.Obeys start.signature := by
  obtain ⟨later, extension, featuresEq⟩ := continues.faithful faithful
  exact later start.signature (start.follows_signature.of_extends faithful.wellFormed
    later.wellFormed.types_canonical.toCoherent extension featuresEq)

/-- Run at some time while the features stay as they are, the operation gives `answer`. -/
def Answers {α : Type} (start : Checker) (operation : CheckM α) (answer : α) : Prop :=
  ∃ checker after, start.Continues checker ∧ operation.run checker = .ok answer after

/-- An answer is right at whatever time of a history it is given. -/
theorem Answers.holds {α : Type} (faithful : start.Faithful) {operation : CheckM α}
    {post : α → Prop}
    (finds : ∀ checker, checker.Obeys start.signature → checker.features = start.features →
      (∀ ty, start.types.Holds ty → checker.types.Denotes ty (start.types.tree ty)) →
        Finds start.signature checker operation fun _ => post) {answer : α}
    (answers : start.Answers operation answer) : post answer := by
  obtain ⟨checker, after, continues, run⟩ := answers
  obtain ⟨later, extension, featuresEq⟩ := continues.faithful faithful
  refine (finds checker (continues.obeys faithful) featuresEq ?_ answer after run).2.2
  intro ty held
  exact TypeStore.Denotes.of_extends ⟨held, rfl⟩ faithful.wellFormed.types_canonical.toCoherent
    later.wellFormed.types_canonical.toCoherent extension

theorem answers_of_run {α : Type} {operation : CheckM α} {answer : α}
    (runs : operation.run' start = some answer) : start.Answers operation answer := by
  obtain ⟨after, run⟩ := run'_eq_some_iff.mp runs
  exact ⟨start, after, .refl, run⟩

end Checker

end FeatureTypes

import FeatureTypes.Proofs.Checker.Registry
import FeatureTypes.Proofs.Renumbering.Engine

/-!
# Histories that store other types

Two histories declare the same in the same order, and each of them stores further types in
between as it likes.
-/

namespace FeatureTypes

/-! ## Beginnings -/

theorem FeatureTable.Renumbered.initial (same : TypeId → TypeId → Prop) :
    FeatureTable.initial.Renumbered same .initial := by
  refine ⟨rfl, fun id => ?_⟩
  obtain ⟨index⟩ := id
  cases index with
  | zero => exact .some (.new ..)
  | succ index => exact .none

theorem Memo.Related.empty {κ : Type} [Ord κ] [Std.TransOrd κ] (keys : κ → κ → Prop)
    (same : TypeId → TypeId → Prop) : Memo.Related keys same {} {} where
  forth key result found := by simp at found
  back key result found := by simp at found

namespace Checker

theorem Renumbered.initial (options : Options) (journal : Journal) :
    Renumbered { options, journal } { options, journal } where
  wellFormed := initial_wellFormed options journal
  other_wellFormed := initial_wellFormed options journal
  features_renumbered := .initial _
  options_eq := rfl
  recording_eq := rfl
  reported_iff := Iff.rfl
  byOwner_related := .empty _ _
  viaType_related := .empty _ _

/-! ## Steps of one checker -/

theorem Renumbered.sound {checker other : Checker} (renumbered : checker.Renumbered other) :
    checker.Sound :=
  { renumbered.wellFormed with
    memos_stored := fun _ => {
      byOwner_held := fun key result found =>
        have ⟨_, _, _, matching, _⟩ := renumbered.byOwner_related.forth key result found
        matching.1
      viaType_held := fun key result found =>
        have ⟨_, _, _, matching, _⟩ := renumbered.viaType_related.forth key result found
        matching.1 } }

theorem Sound.after_construct {checker : Checker} (sound : checker.Sound)
    {construction : Construction} (held : ∀ ty ∈ construction.uses, checker.types.Holds ty)
    (completes : (Operation.construct construction).completes checker = true) :
    ∃ types events, (Operation.construct construction).after checker =
        { checker with types, journal := { checker.journal with events } } ∧
      checker.types.Extends types ∧ types.Canonical := by
  obtain ⟨types, events, afterEq⟩ := Checker.after_construct construction checker
  have coupled : (lockstep Lockstep.Alike).couples (.diagonal sound)
      (Operation.construct construction).run (Operation.construct construction).run
        (lockstep Lockstep.Alike).Agrees :=
    Lockstep.couples_construction (Lockstep.core Lockstep.alike_growing.stable) construction held
  obtain ⟨next, nextEq, extension, _⟩ := Lockstep.after_of_couples coupled completes
  have canonical := next.sound.types_canonical
  have isNext := nextEq.trans afterEq
  rw [isNext] at extension canonical
  exact ⟨types, events, afterEq, extension, canonical⟩

/-- A type may be stored on one side only. -/
theorem Renumbered.construct {first second : Checker} (renumbered : first.Renumbered second)
    {construction : Construction} (held : ∀ ty ∈ construction.uses, first.types.Holds ty)
    (completes : (Operation.construct construction).completes first = true) :
    ((Operation.construct construction).after first).Renumbered second := by
  obtain ⟨types, events, afterEq, extension, canonical⟩ :=
    renumbered.sound.after_construct held completes
  rw [afterEq]
  exact renumbered.advance extension (.refl _) canonical
    renumbered.other_wellFormed.types_canonical rfl rfl renumbered.recording_eq
    renumbered.reported_iff

/-! ## Steps of both checkers -/

/-- The same declaration in terms of other numbers. -/
inductive Declaration.Related (same : TypeId → TypeId → Prop) : Declaration → Declaration → Prop
  | feature (name : String) (outer : Option FeatureId) (isRef : Bool) :
      Related same (.feature name outer isRef) (.feature name outer isRef)
  | formal (owner : FeatureId) (name : String) (constraint constraint' : TypeId)
      (constraintSame : same constraint constraint') (isOpen : Bool) (span : Span) :
      Related same (.formal owner name constraint isOpen span)
        (.formal owner name constraint' isOpen span)
  | parent (heir ancestor : FeatureId) (actuals actuals' : List TypeId)
      (sameActuals : List.Forall₂ same actuals actuals') :
      Related same (.parent heir ancestor actuals) (.parent heir ancestor actuals')
  | choice (id : FeatureId) (summands summands' : List TypeId)
      (sameSummands : List.Forall₂ same summands summands') :
      Related same (.choice id summands) (.choice id summands')
  | typeRoot (root : FeatureId) : Related same (.typeRoot root) (.typeRoot root)

end Checker

namespace Renumbering

open Checker

variable {pair : Pair}

theorem couples_answer {α : Type} {operation operation' : CheckM α} (wrap : α → Answer)
    {relation : Pair → α → α → Prop}
    (coupled : renumbering.couples pair operation operation' relation) :
    renumbering.couples pair (do return wrap (← operation)) (do return wrap (← operation'))
      fun _ _ _ => True :=
  core.bind coupled fun _ _ _ _ _ => core.pure trivial

theorem couples_declareTypeRoot (root : FeatureId) :
    renumbering.couples pair (declareTypeRoot root) (declareTypeRoot root)
      renumbering.Agrees := by
  have renumbered := pair.renumbered
  have wellFormed : { pair.first.features with typeRoot := some root }.WellFormed
      pair.first.types := renumbered.wellFormed.features_wellFormed
  have wellFormed' : { pair.second.features with typeRoot := some root }.WellFormed
      pair.second.types := renumbered.other_wellFormed.features_wellFormed
  exact .step (renumbered.withFeatures wellFormed wellFormed'
    ⟨rfl, renumbered.features_renumbered.related⟩) (.refl _) (.refl _) rfl

theorem couples_declaration {declaration declaration' : Declaration}
    (related : declaration.Related (renumbering.same pair) declaration') :
    renumbering.couples pair declaration.run declaration'.run fun _ _ _ => True := by
  cases related with
  | feature name outer isRef =>
    exact couples_answer (fun id => .feature (some id))
      (couples_declare name (outer.getD .universe) isRef none)
  | formal owner name constraint constraint' constraintSame isOpen span =>
    exact couples_answer .type (core.bind_agrees
      (couples_addFormal owner name constraintSame isOpen span) fun _ id _ => core.formal id)
  | parent heir ancestor actuals actuals' sameActuals =>
    exact couples_answer (fun _ => .none) (couples_declareParent heir ancestor sameActuals)
  | choice id summands summands' sameSummands =>
    exact couples_answer (fun _ => .none) (couples_declareChoice id sameSummands)
  | typeRoot root => exact couples_answer (fun _ => .none) (couples_declareTypeRoot root)

theorem after_of_couples {first second : Checker} (renumbered : first.Renumbered second)
    {operation operation' : Operation} {relation : Pair → Answer → Answer → Prop}
    (coupled : renumbering.couples ⟨first, second, renumbered⟩ operation.run operation'.run
      relation) (completes : operation.completes first = true) :
    (operation.after first).Renumbered (operation'.after second) := by
  simp only [renumbering] at coupled
  unfold Operation.after
  unfold Operation.completes at completes
  generalize operation.run.run first = outcome at coupled completes ⊢
  generalize operation'.run.run second = outcome' at coupled ⊢
  cases coupled with
  | ok next => exact next.renumbered
  | failed failure next => exact next.renumbered
  | exhausted checker => simp at completes

end Renumbering

namespace Checker

/-- Two checkers with histories that declare the same in the same order, apart from the numbers
of types, while each of them stores types of its own in between.  Nothing has been asked of the
engine, so that nothing is remembered. -/
inductive Parallel : Checker → Checker → Prop
  | initial (options : Options) (journal : Journal) :
      Parallel { options, journal } { options, journal }
  | constructFirst {first second : Checker} (parallel : Parallel first second)
      (construction : Construction) (held : ∀ ty ∈ construction.uses, first.types.Holds ty)
      (completes : (Operation.construct construction).completes first = true) :
      Parallel ((Operation.construct construction).after first) second
  | constructSecond {first second : Checker} (parallel : Parallel first second)
      (construction : Construction) (held : ∀ ty ∈ construction.uses, second.types.Holds ty)
      (completes : (Operation.construct construction).completes second = true) :
      Parallel first ((Operation.construct construction).after second)
  | declare {first second : Checker} (parallel : Parallel first second)
      {declaration declaration' : Declaration}
      (related : declaration.Related (first.types.Matches second.types) declaration')
      (completes : (Operation.declare declaration).completes first = true) :
      Parallel ((Operation.declare declaration).after first)
        ((Operation.declare declaration').after second)
  | companion {first second : Checker} (parallel : Parallel first second) (id : FeatureId)
      (completes : (Operation.companion id).completes first = true) :
      Parallel ((Operation.companion id).after first) ((Operation.companion id).after second)

/-- Only numbers tell the two checkers apart. -/
theorem Parallel.renumbered {first second : Checker} (parallel : first.Parallel second) :
    first.Renumbered second := by
  induction parallel with
  | initial options journal => exact .initial options journal
  | constructFirst _ construction held completes ih =>
    exact ih.construct held completes
  | constructSecond _ construction held completes ih =>
    exact (ih.symm.construct held completes).symm
  | declare _ related completes ih =>
    exact Renumbering.after_of_couples ih
      (Renumbering.couples_declaration related) completes
  | companion _ id completes ih =>
    exact Renumbering.after_of_couples ih
      (Renumbering.couples_answer .feature (Renumbering.full.companion id)) completes

end Checker

end FeatureTypes

import FeatureTypes.Proofs.Coupling.Declaration
import FeatureTypes.Proofs.Coupling.Substitution
import FeatureTypes.Proofs.Renumbering.Basic

/-!
# Declarations under other numbers
-/

namespace FeatureTypes

/-! ## Changed features -/

namespace Feature.Renumbered

variable {same : TypeId → TypeId → Prop} {declared declared' : Feature}

theorem new (name qualifiedName : String) (outer origin : Option FeatureId) (isRef : Bool) :
    Feature.Renumbered same { name, qualifiedName, outer, isRef, origin }
      { name, qualifiedName, outer, isRef, origin } :=
  { name_eq := rfl, qualifiedName_eq := rfl, outer_eq := rfl, isRef_eq := rfl, origin_eq := rfl,
    formals_related := .nil, parents_related := .nil, summands_related := .none,
    companion_eq := rfl }

variable (related : declared.Renumbered same declared')

include related

theorem withFormal {formal formal' : Formal} (formalRelated : Formal.Related same formal formal') :
    Feature.Renumbered same { declared with formals := declared.formals ++ [formal] }
      { declared' with formals := declared'.formals ++ [formal'] } :=
  { related with
    formals_related := List.rel_append related.formals_related (.cons formalRelated .nil) }

theorem withParent {parent parent' : Parent} (parentRelated : Parent.Related same parent parent') :
    Feature.Renumbered same { declared with parents := declared.parents ++ [parent] }
      { declared' with parents := declared'.parents ++ [parent'] } :=
  { related with
    parents_related := List.rel_append related.parents_related (.cons parentRelated .nil) }

theorem withSummands {summands summands' : List TypeId}
    (summandsSame : List.Forall₂ same summands summands') :
    Feature.Renumbered same { declared with summands := some summands }
      { declared' with summands := some summands' } :=
  { related with summands_related := .some summandsSame }

theorem withCompanion (companion : Option FeatureId) :
    Feature.Renumbered same { declared with companion } { declared' with companion } :=
  { related with companion_eq := rfl }

end Feature.Renumbered

namespace FeatureTable

variable {table : FeatureTable} {id : FeatureId} {declared : Feature}

theorem exists_declare {outer : FeatureId} {name qualifiedName : String}
    (qualified : table.qualify outer name = .ok qualifiedName) (isRef : Bool)
    (origin : Option FeatureId) :
    ∃ later, table.declare name outer isRef origin = .ok (⟨table.size⟩, later) ∧
      table.Update later ⟨table.size⟩
        { name, qualifiedName, outer := some outer, isRef, origin } := by
  have declares : table.declare name outer isRef origin = .ok (⟨table.size⟩, { table with
      features := table.features.push
        { name, qualifiedName, outer := some outer, isRef, origin } }) := by
    rw [declare, qualified]
    rfl
  obtain ⟨_, _, qualified', update⟩ := declare_update declares
  obtain rfl := Except.ok.inj (qualified.symm.trans qualified')
  exact ⟨_, declares, update⟩

theorem exists_modify (found : table.get id = .ok declared) (edit : Feature → Feature) :
    ∃ later, table.modify id edit = .ok later ∧ table.Update later id (edit declared) := by
  have modifies : table.modify id edit = .ok { table with
      features := table.features.setIfInBounds id.index (edit declared) } := by
    rw [modify, found]
    rfl
  obtain ⟨_, found', update⟩ := modify_update modifies
  obtain rfl := Except.ok.inj (found.symm.trans found')
  exact ⟨_, modifies, update⟩

theorem exists_addFormal (found : table.get id = .ok declared) (closed : declared.endsOpen = false)
    (name : String) (constraint : TypeId) (isOpen : Bool) (span : Span) :
    ∃ later, table.addFormal id name constraint isOpen span =
        .ok (⟨id, declared.formals.length⟩, later) ∧
      table.Update later id { declared with formals := declared.formals ++
        [{ id := ⟨id, declared.formals.length⟩, name, isOpen, constraint, span }] } := by
  obtain ⟨later, modifies, update⟩ := exists_modify found fun declared' => { declared' with
    formals := declared'.formals ++
      [{ id := ⟨id, declared.formals.length⟩, name, isOpen, constraint, span }] }
  refine ⟨later, ?_, update⟩
  rw [addFormal, found]
  change (if declared.endsOpen = true then _ else _) = _
  rw [closed]
  change (table.modify id _ >>= _) = _
  rw [modifies]
  rfl

end FeatureTable

namespace Renumbering

open Checker

variable {pair : Pair}

/-! ## Changes of the features -/

/-- A change of one table has its counterpart in the other. -/
theorem couples_onFeatures {α : Type}
    {operation operation' : FeatureTable → Except Failure (α × FeatureTable)}
    (changes : (∃ failure, operation pair.first.features = .error failure ∧
        operation' pair.second.features = .error failure) ∨
      ∃ result table table', operation pair.first.features = .ok (result, table) ∧
        operation' pair.second.features = .ok (result, table') ∧
          table.WellFormed pair.first.types ∧ table'.WellFormed pair.second.types ∧
            table.Renumbered (pair.first.types.Matches pair.second.types) table') :
    renumbering.couples pair (onFeatures operation) (onFeatures operation')
      renumbering.Agrees := by
  simp only [renumbering, run_onFeatures]
  rcases changes with ⟨failure, failed, failed'⟩ |
    ⟨result, table, table', changed, changed', wellFormed, wellFormed', tables⟩
  · rw [failed, failed']
    exact .failed failure pair (.refl pair)
  · rw [changed, changed']
    exact .step (pair.renumbered.withFeatures wellFormed wellFormed' tables) (.refl _) (.refl _) rfl

theorem couples_declare (name : String) (outer : FeatureId) (isRef : Bool)
    (origin : Option FeatureId) :
    renumbering.couples pair (onFeatures (·.declare name outer isRef origin))
      (onFeatures (·.declare name outer isRef origin)) renumbering.Agrees := by
  apply couples_onFeatures
  have renumbered := pair.renumbered.features_renumbered
  have qualifyEq := renumbered.qualify_eq outer name
  cases qualified : pair.first.features.qualify outer name with
  | error failure =>
    left
    refine ⟨failure, ?_, ?_⟩
    · rw [FeatureTable.declare, qualified]
      rfl
    · rw [FeatureTable.declare, qualifyEq, qualified]
      rfl
  | ok qualifiedName =>
    right
    obtain ⟨table, declares, update⟩ := FeatureTable.exists_declare qualified isRef origin
    obtain ⟨table', declares', update'⟩ :=
      FeatureTable.exists_declare (qualifyEq.trans qualified) isRef origin
    rw [renumbered.size_eq] at declares' update'
    refine ⟨_, table, table', declares, declares', ?_, ?_,
      update.renumbered renumbered update' (.new ..)⟩
    · exact pair.renumbered.wellFormed.features_wellFormed.update update (.new ..)
    · exact pair.renumbered.other_wellFormed.features_wellFormed.update update' (.new ..)

theorem couples_modifyFeature {id : FeatureId} {edit edit' : Feature → Feature}
    (kept : ∀ declared declared', declared.WellFormed pair.first.types id →
      declared'.WellFormed pair.second.types id →
        declared.Renumbered (pair.first.types.Matches pair.second.types) declared' →
          (edit declared).WellFormed pair.first.types id ∧
            (edit' declared').WellFormed pair.second.types id ∧
              (edit declared).Renumbered (pair.first.types.Matches pair.second.types)
                (edit' declared')) :
    renumbering.couples pair (modifyFeature id edit) (modifyFeature id edit')
      renumbering.Agrees := by
  apply couples_onFeatures
  have renumbered := pair.renumbered.features_renumbered
  have wellFormed := pair.renumbered.wellFormed.features_wellFormed
  have wellFormed' := pair.renumbered.other_wellFormed.features_wellFormed
  rcases renumbered.get_cases id with ⟨missing, missing'⟩ |
    ⟨declared, declared', found, found', related⟩
  · left
    refine ⟨.unknownFeature, ?_, ?_⟩
    · rw [FeatureTable.modify, missing]
      rfl
    · rw [FeatureTable.modify, missing']
      rfl
  · right
    obtain ⟨table, modifies, update⟩ := FeatureTable.exists_modify found edit
    obtain ⟨table', modifies', update'⟩ := FeatureTable.exists_modify found' edit'
    obtain ⟨edited, edited', editsRelated⟩ :=
      kept _ _ (wellFormed id _ found) (wellFormed' id _ found') related
    refine ⟨(), table, table', ?_, ?_, wellFormed.update update edited,
      wellFormed'.update update' edited', update.renumbered renumbered update' editsRelated⟩
    · rw [modifies]
      rfl
    · rw [modifies']
      rfl

theorem couples_addFormal (feature : FeatureId) (name : String) {constraint constraint' : TypeId}
    (constraintSame : renumbering.same pair constraint constraint') (isOpen : Bool) (span : Span) :
    renumbering.couples pair (addFormal feature name constraint isOpen span)
      (addFormal feature name constraint' isOpen span) renumbering.Agrees := by
  apply couples_onFeatures
  have renumbered := pair.renumbered.features_renumbered
  have wellFormed := pair.renumbered.wellFormed.features_wellFormed
  have wellFormed' := pair.renumbered.other_wellFormed.features_wellFormed
  rcases renumbered.get_cases feature with ⟨missing, missing'⟩ |
    ⟨declared, declared', found, found', related⟩
  · left
    refine ⟨.unknownFeature, ?_, ?_⟩
    · rw [FeatureTable.addFormal, missing]
      rfl
    · rw [FeatureTable.addFormal, missing']
      rfl
  · have opensEq : declared'.endsOpen = declared.endsOpen := related.toRelated.endsOpen_eq
    cases opens : declared.endsOpen with
    | true =>
      left
      refine ⟨.formalAfterOpen, ?_, ?_⟩
      · rw [FeatureTable.addFormal, found]
        change (if declared.endsOpen = true then _ else _) = _
        rw [opens]
        rfl
      · rw [FeatureTable.addFormal, found']
        change (if declared'.endsOpen = true then _ else _) = _
        rw [opensEq, opens]
        rfl
    | false =>
      right
      obtain ⟨table, adds, update⟩ :=
        FeatureTable.exists_addFormal found opens name constraint isOpen span
      obtain ⟨table', adds', update'⟩ :=
        FeatureTable.exists_addFormal found' (opensEq.trans opens) name constraint' isOpen span
      have lengthEq := related.formals_related.length_eq
      rw [← lengthEq] at adds' update'
      refine ⟨_, table, table', adds, adds', ?_, ?_, update.renumbered renumbered update'
        (related.withFormal ⟨rfl, rfl, rfl, rfl, constraintSame⟩)⟩
      · exact wellFormed.update update
          ((wellFormed _ _ found).withFormal rfl constraintSame.1)
      · exact wellFormed'.update update'
          ((wellFormed' _ _ found').withFormal (by rw [lengthEq]) constraintSame.2.1)

theorem couples_declareParent (heir ancestor : FeatureId) {actuals actuals' : List TypeId}
    (sameActuals : List.Forall₂ (renumbering.same pair) actuals actuals') :
    renumbering.couples pair (declareParent heir ancestor actuals)
      (declareParent heir ancestor actuals') renumbering.Agrees := by
  refine core.bind (core.instantiate ancestor sameActuals) ?_
  intro pair₁ ty ty' step₁ tySame
  have sameActuals := core.list_later sameActuals step₁
  obtain ⟨actualsHeld, actualsHeld', _⟩ := TypeStore.forall₂_matches_iff.mp sameActuals
  refine couples_modifyFeature fun declared declared' wellFormed wellFormed' related => ?_
  exact ⟨wellFormed.withParent actualsHeld tySame.1, wellFormed'.withParent actualsHeld' tySame.2.1,
    related.withParent ⟨rfl, sameActuals, tySame⟩⟩

theorem couples_declareChoice (id : FeatureId) {summands summands' : List TypeId}
    (sameSummands : List.Forall₂ (renumbering.same pair) summands summands') :
    renumbering.couples pair (declareChoice id summands) (declareChoice id summands')
      renumbering.Agrees := by
  obtain ⟨held, held', _⟩ := TypeStore.forall₂_matches_iff.mp sameSummands
  refine couples_modifyFeature fun declared declared' wellFormed wellFormed' related => ?_
  exact ⟨wellFormed.withSummands held, wellFormed'.withSummands held',
    related.withSummands sameSummands⟩

theorem couples_typeRoot? : renumbering.couples pair typeRoot? typeRoot? renumbering.Agrees :=
  .ok pair (.refl pair) pair.renumbered.features_renumbered.typeRoot_eq

/-- Companions are created on both sides. -/
theorem declaring : renumbering.Declaring (fun _ => True) fun _ _ => True where
  toCore := core
  plain_later _ _ := trivial
  look id := (couples_feature id).weaken fun _ _ _ related =>
    ⟨⟨related.companion_eq, related.outer_eq, congrArg Option.isSome related.origin_eq⟩,
      fun _ => trivial⟩
  typeRoot := couples_typeRoot?
  declareCompanion name outer _ := (couples_declare name outer false _).weaken fun _ _ _ agree =>
    ⟨agree, trivial⟩
  addFormal name isOpen span _ constraintSame :=
    couples_addFormal _ name constraintSame isOpen span
  declareParent ancestor _ sameActuals := couples_declareParent _ ancestor sameActuals
  linkCompanion _ _ := couples_modifyFeature fun _ _ wellFormed wellFormed' related =>
    ⟨wellFormed.withCompanion _, wellFormed'.withCompanion _, related.withCompanion _⟩

end Renumbering

end FeatureTypes

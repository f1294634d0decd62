import FeatureTypes.Proofs.Checker.Run
import FeatureTypes.Proofs.Coupling.Lists

/-!
# Coupled operations on types
-/

namespace FeatureTypes

variable {visit visit' : TypeId → CheckM (Option TypeId)} {args' : List TypeId}

/-! ## Edits of a layer -/

namespace Node.Related

variable {same : TypeId → TypeId → Prop} {layer layer' : Node}

variable (related : Node.Related same layer layer')

include related

theorem withRef (isRef : Bool) :
    Node.Related same (layer.withRef isRef) (layer'.withRef isRef) := by
  cases related with
  | formal id boxed => exact .formal id isRef
  | applied feature _ isThis sameArgs sameOuter =>
    exact .applied feature isRef isThis sameArgs sameOuter
  | error => exact .error
  | void => exact .void
  | undefined => exact .undefined

theorem asThis : Node.Related same layer.asThis layer'.asThis := by
  cases related with
  | applied feature isRef _ sameArgs sameOuter =>
    exact .applied feature isRef true sameArgs sameOuter
  | formal id boxed => exact .formal id boxed
  | error => exact .error
  | void => exact .void
  | undefined => exact .undefined

theorem withParts {args : List TypeId} {outer outer' : Option TypeId}
    (sameArgs : List.Forall₂ same args args') (sameOuter : Option.Rel same outer outer') :
    Node.Related same (layer.withParts args outer) (layer'.withParts args' outer') := by
  cases related with
  | applied feature isRef isThis _ _ => exact .applied feature isRef isThis sameArgs sameOuter
  | formal id boxed => exact .formal id boxed
  | error => exact .error
  | void => exact .void
  | undefined => exact .undefined

end Node.Related

namespace Coupling

def CouplesVisits (K : Coupling) (world : K.World)
    (visit visit' : TypeId → CheckM (Option TypeId)) : Prop :=
  ∀ world' ty ty', K.later world world' → K.same world' ty ty' →
    K.couples world' (visit ty) (visit' ty') fun world'' => Option.Rel (K.same world'')

namespace Core

open Checker

variable {K : Coupling} (core : K.Core) {world : K.World} {ty ty' : TypeId}

include core

/-! ## Queries -/

section Answers

variable {types types' : TypeStore} (stores : K.stores world types types')

include stores

variable (tySame : K.same world ty ty')

include tySame

theorem mentionsFormal_eq : types'.mentionsFormal ty' = types.mentionsFormal ty := by
  simp only [TypeStore.mentionsFormal, (core.layer stores tySame).2]

theorem mentionsThis_eq : types'.mentionsThis ty' = types.mentionsThis ty := by
  simp only [TypeStore.mentionsThis, (core.layer stores tySame).2]

theorem mentionsError_eq : types'.mentionsError ty' = types.mentionsError ty := by
  simp only [TypeStore.mentionsError, (core.layer stores tySame).2]

theorem answers_eq :
    types'.formalId? ty' = types.formalId? ty ∧ types'.feature? ty' = types.feature? ty ∧
      types'.isRef ty' = types.isRef ty ∧
        (types'.args ty').length = (types.args ty).length := by
  have layerRelated := (core.layer stores tySame).1
  simp only [TypeStore.formalId?, TypeStore.feature?, TypeStore.isRef, TypeStore.args]
  generalize types.node ty = layer at layerRelated ⊢
  generalize types'.node ty' = layer' at layerRelated ⊢
  cases layerRelated with
  | applied feature isRef isThis sameArgs sameOuter =>
    exact ⟨rfl, rfl, rfl, sameArgs.length_eq.symm⟩
  | _ => exact ⟨rfl, rfl, rfl, rfl⟩

theorem formalId?_eq : types'.formalId? ty' = types.formalId? ty :=
  (core.answers_eq stores tySame).1

theorem isFormal_eq : types'.isFormal ty' = types.isFormal ty := by
  simp only [TypeStore.isFormal, core.formalId?_eq stores tySame]

theorem feature?_eq : types'.feature? ty' = types.feature? ty :=
  (core.answers_eq stores tySame).2.1

theorem isRef_eq : types'.isRef ty' = types.isRef ty :=
  (core.answers_eq stores tySame).2.2.1

theorem argsLength_eq : (types'.args ty').length = (types.args ty).length :=
  (core.answers_eq stores tySame).2.2.2

theorem outer?_related :
    Option.Rel (K.same world) (types.outer? ty) (types'.outer? ty') ∧
      (∀ outer, types.outer? ty = some outer → outer.index < ty.index) ∧
        ∀ outer, types'.outer? ty' = some outer → outer.index < ty'.index := by
  have layerRelated := (core.layer stores tySame).1
  obtain ⟨smaller, smaller'⟩ := core.child_lt stores tySame
  simp only [TypeStore.outer?]
  generalize types.node ty = layer at layerRelated smaller ⊢
  generalize types'.node ty' = layer' at layerRelated smaller' ⊢
  cases layerRelated with
  | applied feature isRef isThis sameArgs sameOuter =>
    refine ⟨sameOuter, ?_, ?_⟩
    · rintro outer rfl
      exact smaller outer (by simp [Node.children])
    · rintro outer rfl
      exact smaller' outer (by simp [Node.children])
  | _ => exact ⟨Option.Rel.none, by simp, by simp⟩

end Answers

/-- Corresponding types have corresponding layers. -/
theorem node (tySame : K.same world ty ty') :
    K.couples world (node ty) (node ty') fun world' layer layer' =>
      Node.Related (K.same world') layer layer' ∧
        (∀ child ∈ layer.children, child.index < ty.index) ∧
          ∀ child ∈ layer'.children, child.index < ty'.index :=
  core.read fun _ _ stores => ⟨(core.layer stores tySame).1, core.child_lt stores tySame⟩

theorem outer? (tySame : K.same world ty ty') :
    K.couples world (readTypes (·.outer? ty)) (readTypes (·.outer? ty'))
      fun world' outer outer' =>
        Option.Rel (K.same world') outer outer' ∧
          (∀ around, outer = some around → around.index < ty.index) ∧
            ∀ around, outer' = some around → around.index < ty'.index :=
  core.read fun _ _ stores => core.outer?_related stores tySame

/-! ## Builders -/

theorem formal (id : FormalId) :
    K.couples world (onTypes (·.formal id)) (onTypes (·.formal id)) K.same :=
  core.intern (.formal id false)

theorem applied (feature : FeatureId) {args args' : List TypeId} {outer outer' : Option TypeId}
    (isRef : Bool) (sameArgs : List.Forall₂ (K.same world) args args')
    (sameOuter : Option.Rel (K.same world) outer outer') :
    K.couples world (onTypes (·.applied feature args outer isRef))
      (onTypes (·.applied feature args' outer' isRef)) K.same :=
  core.intern (.applied feature isRef false sameArgs sameOuter)

section

variable (tySame : K.same world ty ty')

include tySame

/-- An edit of the root is coupled if it takes corresponding layers to such layers. -/
theorem change {edit edit' : Node → Node} (edited : ∀ world' layer layer', K.later world world' →
      Node.Related (K.same world') layer layer' →
        Node.Related (K.same world') (edit layer) (edit' layer')) :
    K.couples world (onTypes (·.change ty edit)) (onTypes (·.change ty' edit')) K.same := by
  rw [onTypes_change, onTypes_change]
  refine core.bind (core.node tySame) ?_
  rintro world' layer layer' step ⟨related, -⟩
  have editedRelated := edited world' layer layer' step related
  have unchangedIff := editedRelated.eq_iff core.same_iff related
  by_cases unchanged : edit layer = layer
  · rw [if_pos unchanged, if_pos (unchangedIff.mp unchanged)]
    exact core.pure (core.same_later tySame step)
  · rw [if_neg unchanged, if_neg (mt unchangedIff.mpr unchanged)]
    exact core.intern editedRelated

theorem asRef : K.couples world (asRef ty) (asRef ty') K.same :=
  core.change tySame fun _ _ _ _ related => related.withRef true

theorem asThis : K.couples world (onTypes (·.asThis ty)) (onTypes (·.asThis ty')) K.same :=
  core.change tySame fun _ _ _ _ related => related.asThis

theorem rebuild {args : List TypeId} {outer outer' : Option TypeId}
    (sameArgs : List.Forall₂ (K.same world) args args')
    (sameOuter : Option.Rel (K.same world) outer outer') :
    K.couples world (onTypes (·.rebuild ty args outer)) (onTypes (·.rebuild ty' args' outer'))
      K.same :=
  core.change tySame fun _ _ _ step related =>
    related.withParts (core.list_later sameArgs step) (core.option_later sameOuter step)

end

/-! ## Declared formals -/

theorem formal? (id : FormalId) :
    K.couples world (formal? id) (formal? id) fun world' =>
      Option.Rel (Formal.Related (K.same world')) := by
  rw [formal?_eq]
  refine core.bind (core.feature id.feature) ?_
  intro world' declared declared' _ related
  exact core.pure (option_rel_getElem? related.formals_related id.index)

theorem constraint? (id : FormalId) :
    K.couples world (constraint? id) (constraint? id) fun world' =>
      Option.Rel (K.same world') := by
  refine core.bind (core.formal? id) ?_
  intro world' formal formal' _ related
  refine core.pure ?_
  cases related with
  | none => exact Option.Rel.none
  | some formalRelated => exact Option.Rel.some formalRelated.constraint_same

section

variable (tySame : K.same world ty ty')

include tySame

theorem formalOf? :
    K.couples world (formalOf? ty) (formalOf? ty') fun world' =>
      Option.Rel (Formal.Related (K.same world')) := by
  refine core.bind_agrees (core.read fun _ _ stores => core.formalId?_eq stores tySame) ?_
  intro world' id _
  cases id with
  | none => exact core.pure Option.Rel.none
  | some id => exact core.formal? id

theorem ensureNotOpen (reports : ∀ world issue span,
    K.couples world (report issue span) (report issue span) K.Agrees) :
    K.couples world (ensureNotOpen ty) (ensureNotOpen ty') K.Agrees := by
  refine core.bind (core.formalOf? tySame) ?_
  intro world₁ formal formal' step₁ related
  cases related with
  | none => exact core.pure rfl
  | @some formal formal' formalRelated =>
    simp only [formalRelated.isOpen_eq, formalRelated.span_eq]
    cases formal.isOpen with
    | false => exact core.pure rfl
    | true =>
      refine core.bind_agrees (core.display (core.same_later tySame step₁)) ?_
      intro world₂ text _
      refine core.bind_agrees (reports world₂ (.illegalOpenFormal text) formal.span) ?_
      intro world₃ _ _
      exact core.pure rfl

theorem isOpenFormal : K.couples world (isOpenFormal ty) (isOpenFormal ty') K.Agrees := by
  refine core.bind (core.formalOf? tySame) ?_
  intro world' formal formal' _ related
  refine core.pure ?_
  cases related with
  | none => rfl
  | some formalRelated => exact formalRelated.isOpen_eq

theorem isChoice : K.couples world (isChoice ty) (isChoice ty') K.Agrees := by
  refine core.bind_agrees (core.read fun _ _ stores => core.feature?_eq stores tySame) ?_
  intro world' id _
  cases id with
  | none => exact core.pure rfl
  | some id =>
    refine core.bind (core.feature id) ?_
    intro world'' declared declared' _ related
    refine core.pure ?_
    have summandsRelated := related.summands_related
    simp only [Agrees, Feature.isChoice]
    generalize declared.summands = summands at summandsRelated ⊢
    generalize declared'.summands = summands' at summandsRelated ⊢
    cases summandsRelated <;> rfl

theorem isMetatype : K.couples world (isMetatype ty) (isMetatype ty') K.Agrees := by
  refine core.bind_agrees (core.read fun _ _ stores => core.feature?_eq stores tySame) ?_
  intro world' id _
  cases id with
  | none => exact core.pure rfl
  | some id =>
    refine core.bind (core.feature id) ?_
    intro world'' declared declared' _ related
    exact core.pure (congrArg Option.isSome related.origin_eq)

end

/-! ## Types of features -/

theorem outerTypeBy {typeOf typeOf' : FeatureId → CheckM TypeId}
    (coupled : ∀ world' id, K.later world world' → K.couples world' (typeOf id) (typeOf' id) K.same)
    (id : FeatureId) :
    K.couples world (outerTypeBy typeOf id) (outerTypeBy typeOf' id) fun world' =>
      Option.Rel (K.same world') := by
  refine core.bind (core.feature id) ?_
  intro world₁ declared declared' step₁ related
  rw [related.outer_eq]
  cases declared.outer with
  | none => exact core.pure Option.Rel.none
  | some outer =>
    refine core.bind (core.feature outer) ?_
    intro world₂ around around' step₂ aroundRelated
    rw [show around'.isUniverse = around.isUniverse from
      congrArg Option.isNone aroundRelated.outer_eq]
    cases around.isUniverse with
    | true => exact core.pure Option.Rel.none
    | false =>
      refine core.bind (coupled world₂ outer (core.later_trans step₁ step₂)) ?_
      intro world₃ ty ty' _ tySame
      exact core.pure (Option.Rel.some tySame)

theorem selfTypeWithin (depth : Nat) (id : FeatureId) :
    K.couples world (selfTypeWithin depth id) (selfTypeWithin depth id) K.same := by
  induction depth generalizing world id with
  | zero => exact core.fail .depthExceeded
  | succ depth ih =>
    refine core.bind (core.feature id) ?_
    intro world₁ declared declared' _ related
    refine core.bind (core.mapM core.formal_persistent core.same_persistent
      related.formals_related fun world' formal formal' _ formalRelated => ?_) ?_
    · rw [formalRelated.id_eq]
      exact core.formal formal.id
    intro world₂ args args' _ sameArgs
    refine core.bind (core.outerTypeBy (fun world' id _ => ih id) id) ?_
    intro world₃ outer outer' step₃ sameOuter
    rw [related.isRef_eq]
    exact core.applied id declared.isRef (core.list_later sameArgs step₃) sameOuter

/-- A feature has corresponding types from inside. -/
theorem selfType (id : FeatureId) : K.couples world (selfType id) (selfType id) K.same :=
  core.selfTypeWithin _ id

theorem instantiate (id : FeatureId) {args : List TypeId}
    (sameArgs : List.Forall₂ (K.same world) args args') :
    K.couples world (instantiate id args) (instantiate id args') K.same := by
  refine core.bind (core.feature id) ?_
  intro world₁ declared declared' step₁ related
  refine core.bind (core.outerTypeBy (fun world' id _ => core.selfType id) id) ?_
  intro world₂ outer outer' step₂ sameOuter
  rw [related.isRef_eq]
  exact core.applied id declared.isRef
    (core.list_later sameArgs (core.later_trans step₁ step₂)) sameOuter

/-! ## Transformations -/

theorem mapParts {transform transform' : TypeId → CheckM TypeId} (tySame : K.same world ty ty')
    (coupled : ∀ world' part part', K.later world world' → K.same world' part part' →
      part.index < ty.index → part'.index < ty'.index →
        K.couples world' (transform part) (transform' part') K.same) :
    K.couples world (mapParts transform ty) (mapParts transform' ty') K.same := by
  refine core.bind (core.node tySame) ?_
  rintro world₁ layer layer' step₁ ⟨layerRelated, smaller, smaller'⟩
  cases layerRelated with
  | applied feature isRef isThis sameArgs sameOuter =>
    -- The bounds on the numbers of the arguments go along with the list.
    have boundedArgs := forall₂_and_mem sameArgs
      (fun arg member => smaller arg (List.mem_append_left _ member))
      (fun arg member => smaller' arg (List.mem_append_left _ member))
    have persistent : K.Persistent fun world arg arg' =>
        K.same world arg arg' ∧ arg.index < ty.index ∧ arg'.index < ty'.index :=
      fun _ _ _ _ held step => ⟨core.same_later held.1 step, held.2⟩
    refine core.bind (core.mapM persistent core.same_persistent boundedArgs ?_) ?_
    · rintro world' arg arg' step ⟨argSame, bound, bound'⟩
      exact coupled world' arg arg' (core.later_trans step₁ step) argSame bound bound'
    intro world₂ newArgs newArgs' step₂ sameNewArgs
    refine core.bind (core.optionMapM (core.option_later sameOuter step₂) ?_) ?_
    · rintro around around' rfl rfl aroundSame
      exact coupled world₂ around around' (core.later_trans step₁ step₂) aroundSame
        (smaller around (by simp [Node.children])) (smaller' around' (by simp [Node.children]))
    intro world₃ newOuter newOuter' step₃ sameNewOuter
    have tySame₃ := core.same_later tySame
      (core.later_trans step₁ (core.later_trans step₂ step₃))
    exact core.rebuild tySame₃ (core.list_later sameNewArgs step₃) sameNewOuter
  | _ => exact core.pure (core.same_later tySame step₁)

theorem transformWithin (visits : K.CouplesVisits world visit visit') (depth depth' : Nat)
    (tySame : K.same world ty ty') (enough : ty.index < depth) (enough' : ty'.index < depth') :
    K.couples world (transformWithin visit depth ty) (transformWithin visit' depth' ty')
      K.same := by
  induction depth generalizing world ty ty' depth' with
  | zero => exact absurd enough (Nat.not_lt_zero _)
  | succ depth ih =>
    obtain ⟨depth', rfl⟩ : ∃ smaller, depth' = smaller + 1 := ⟨depth' - 1, by omega⟩
    refine core.bind (visits world ty ty' (core.later_refl world) tySame) ?_
    intro world₁ settled settled' step₁ settledRelated
    cases settledRelated with
    | some resultSame => exact core.pure resultSame
    | none =>
      refine core.mapParts (core.same_later tySame step₁) ?_
      intro world₂ part part' step₂ partSame smaller smaller'
      have visits₂ : K.CouplesVisits world₂ visit visit' := fun world' ty ty' step =>
        visits world' ty ty' (core.later_trans (core.later_trans step₁ step₂) step)
      exact ih visits₂ depth' partSame (by omega) (by omega)

/-- A transformation is coupled if its visitor is. -/
theorem transform (visits : K.CouplesVisits world visit visit') (tySame : K.same world ty ty') :
    K.couples world (transform visit ty) (transform visit' ty') K.same :=
  core.transformWithin visits _ _ tySame (Nat.lt_succ_self _) (Nat.lt_succ_self _)

/-! ## Formals of features and of their companions -/

theorem shiftFormal (target : FeatureId) (offset : Nat) (id : FormalId) :
    K.couples world (shiftFormal target offset id) (shiftFormal target offset id) K.Agrees := by
  unfold Checker.shiftFormal
  split
  · exact core.pure rfl
  · exact core.fail _

/-- A visitor of formals passes over types that mention none. -/
theorem couplesVisits_of_formals {settle : TypeId → FormalId → Bool → CheckM (Option TypeId)}
    (visit_eq : ∀ ty, visit ty = (do
      if !(← readTypes (·.mentionsFormal ty)) then return some ty
      match ← Checker.node ty with
      | .formal id boxed => settle ty id boxed
      | _ => return none))
    (settles : ∀ world ty ty' id boxed, K.same world ty ty' →
      K.couples world (settle ty id boxed) (settle ty' id boxed) fun world' =>
        Option.Rel (K.same world')) : K.CouplesVisits world visit visit := by
  intro world ty ty' _ tySame
  rw [visit_eq, visit_eq]
  refine core.bind_agrees (core.read fun _ _ stores => core.mentionsFormal_eq stores tySame) ?_
  intro world₁ mentions step₁
  have tySame₁ := core.same_later tySame step₁
  cases mentions with
  | false => exact core.pure (Option.Rel.some tySame₁)
  | true =>
    refine core.bind (core.node tySame₁) ?_
    rintro world₂ layer layer' step₂ ⟨layerRelated, -⟩
    cases layerRelated with
    | formal id boxed => exact settles world₂ ty ty' id boxed (core.same_later tySame₁ step₂)
    | _ => exact core.pure Option.Rel.none

theorem shiftFormals (source target : FeatureId) (offset : Nat) (tySame : K.same world ty ty') :
    K.couples world (shiftFormals source target offset ty) (shiftFormals source target offset ty')
      K.same := by
  refine core.transform (core.couplesVisits_of_formals (fun _ => rfl) ?_) tySame
  intro world ty ty' id boxed tySame
  split
  · exact core.pure (Option.Rel.some tySame)
  · refine core.bind_agrees (core.shiftFormal target offset id) ?_
    intro world' shifted _
    refine core.bind (core.intern (.formal shifted boxed)) ?_
    intro world'' result result' _ resultSame
    exact core.pure (Option.Rel.some resultSame)

theorem replaceThisFormal (companion : FeatureId) (replacement : FormalId)
    (tySame : K.same world ty ty') :
    K.couples world (replaceThisFormal companion replacement ty)
      (replaceThisFormal companion replacement ty') K.same := by
  refine core.transform (core.couplesVisits_of_formals (fun _ => rfl) ?_) tySame
  intro world ty ty' id boxed tySame
  split
  · exact core.pure (Option.Rel.some tySame)
  · refine core.bind (core.formal replacement) ?_
    intro world₁ replaced replaced' _ replacedSame
    cases boxed with
    | false => exact core.pure (Option.Rel.some replacedSame)
    | true =>
      refine core.bind (core.asRef replacedSame) ?_
      intro world₂ result result' _ resultSame
      exact core.pure (Option.Rel.some resultSame)

/-- Formals for the type at hand are dropped on both sides. -/
theorem dropThisFormals (tySame : K.same world ty ty') :
    K.couples world (dropThisFormals ty) (dropThisFormals ty') K.same := by
  refine core.transform (core.couplesVisits_of_formals (fun _ => rfl) ?_) tySame
  intro world ty ty' id boxed tySame
  split
  · exact core.pure (Option.Rel.some tySame)
  · refine core.bind (core.feature id.feature) ?_
    intro world₁ declared declared' step₁ related
    rw [related.origin_eq]
    cases declared.origin with
    | none => exact core.pure (Option.Rel.some (core.same_later tySame step₁))
    | some origin =>
      refine core.bind (core.selfType origin) ?_
      intro world₂ self self' _ selfSame
      refine core.bind (core.asThis selfSame) ?_
      intro world₃ result result' _ resultSame
      exact core.pure (Option.Rel.some resultSame)

theorem liftFormalsWithin (depth : Nat) (id : FeatureId) (tySame : K.same world ty ty') :
    K.couples world (liftFormalsWithin depth id ty) (liftFormalsWithin depth id ty') K.same := by
  induction depth generalizing world id with
  | zero => exact core.fail .depthExceeded
  | succ depth ih =>
    refine core.bind (core.feature id) ?_
    intro world₁ declared declared' step₁ related
    rw [related.outer_eq, related.origin_eq]
    have tySame₁ := core.same_later tySame step₁
    cases declared.outer with
    | none => exact core.pure tySame₁
    | some outer =>
      refine core.bind (ih outer tySame₁) ?_
      intro world₂ lifted lifted' _ liftedSame
      cases declared.origin with
      | none => exact core.pure liftedSame
      | some origin => exact core.shiftFormals origin id 1 liftedSame

/-! ## Enclosing instances -/

theorem levelFeature? (levelSame : K.same world ty ty') :
    K.couples world (levelFeature? ty) (levelFeature? ty') K.Agrees := by
  refine core.bind (core.node levelSame) ?_
  rintro world₁ layer layer' step₁ ⟨layerRelated, -⟩
  cases layerRelated with
  | formal id boxed =>
    refine core.bind (core.constraint? id) ?_
    intro world₂ constraint constraint' step₂ constraintRelated
    have levelSame₂ := core.same_later levelSame (core.later_trans step₁ step₂)
    have seenSame : K.same world₂ (constraint.getD ty) (constraint'.getD ty') := by
      cases constraintRelated with
      | none => exact levelSame₂
      | some constraintSame => exact constraintSame
    exact core.read fun _ _ stores => core.feature?_eq stores seenSame
  | applied feature isRef isThis sameArgs sameOuter => exact core.pure rfl
  | _ => exact core.pure rfl

theorem levelInherits (levelSame : K.same world ty ty') (id : FeatureId) :
    K.couples world (levelInherits ty id) (levelInherits ty' id) K.Agrees := by
  refine core.bind_agrees (core.levelFeature? levelSame) ?_
  intro world' heir _
  cases heir with
  | none => exact core.pure rfl
  | some heir => exact core.inherits heir id

theorem replaceThisByLevel {level level' : TypeId} (levelSame : K.same world level level')
    (tySame : K.same world ty ty') :
    K.couples world (replaceThisByLevel level ty) (replaceThisByLevel level' ty') K.same := by
  refine core.transform ?_ tySame
  intro world₁ ty ty' step₁ tySame
  refine core.bind_agrees (core.read fun _ _ stores => core.mentionsThis_eq stores tySame) ?_
  intro world₂ mentions step₂
  have tySame₂ := core.same_later tySame step₂
  cases mentions with
  | false => exact core.pure (Option.Rel.some tySame₂)
  | true =>
    refine core.bind (core.node tySame₂) ?_
    rintro world₃ layer layer' step₃ ⟨layerRelated, -⟩
    cases layerRelated with
    | applied feature isRef isThis sameArgs sameOuter =>
      cases isThis with
      | false => exact core.pure Option.Rel.none
      | true =>
        have levelSame₃ := core.same_later levelSame
          (core.later_trans step₁ (core.later_trans step₂ step₃))
        refine core.bind_agrees (core.levelInherits levelSame₃ feature) ?_
        intro world₄ inherits step₄
        cases inherits with
        | false => exact core.pure Option.Rel.none
        | true => exact core.pure (Option.Rel.some (core.same_later levelSame₃ step₄))
    | _ => exact core.pure Option.Rel.none

theorem replaceThisWithin (depth depth' : Nat) {level level' : TypeId}
    (levelSame : K.same world level level') (tySame : K.same world ty ty')
    (enough : level.index < depth) (enough' : level'.index < depth') :
    K.couples world (replaceThisWithin depth level ty) (replaceThisWithin depth' level' ty')
      K.same := by
  induction depth generalizing world level level' ty ty' depth' with
  | zero => exact absurd enough (Nat.not_lt_zero _)
  | succ depth ih =>
    obtain ⟨depth', rfl⟩ : ∃ smaller, depth' = smaller + 1 := ⟨depth' - 1, by omega⟩
    refine core.bind_agrees (core.read fun _ _ stores => core.mentionsThis_eq stores tySame) ?_
    intro world₁ mentions step₁
    have tySame₁ := core.same_later tySame step₁
    have levelSame₁ := core.same_later levelSame step₁
    cases mentions with
    | false => exact core.pure tySame₁
    | true =>
      refine core.bind (core.replaceThisByLevel levelSame₁ tySame₁) ?_
      intro world₂ replaced replaced' step₂ replacedSame
      have levelSame₂ := core.same_later levelSame₁ step₂
      refine core.bind (core.outer? levelSame₂) ?_
      rintro world₃ outer outer' step₃ ⟨outerRelated, smaller, smaller'⟩
      have replacedSame₃ := core.same_later replacedSame step₃
      cases outerRelated with
      | none => exact core.pure replacedSame₃
      | some outerSame =>
        have bound := smaller _ rfl
        have bound' := smaller' _ rfl
        exact ih depth' outerSame replacedSame₃ (by omega) (by omega)

/-- Types of enclosing instances are replaced by the same levels. -/
theorem replaceThis {target target' : TypeId} (tySame : K.same world ty ty')
    (targetSame : K.same world target target') :
    K.couples world (replaceThis ty target) (replaceThis ty' target') K.same :=
  core.replaceThisWithin _ _ targetSame tySame (Nat.lt_succ_self _) (Nat.lt_succ_self _)

end Core

end Coupling

end FeatureTypes

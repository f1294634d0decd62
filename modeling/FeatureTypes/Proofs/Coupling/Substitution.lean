import FeatureTypes.Proofs.Coupling.Types

/-!
# Coupled substitutions

If the first of two coupled runs comes to an end, so does the second, with the same result.
-/

namespace FeatureTypes

variable {same : TypeId → TypeId → Prop} {declared' : Feature}

section

variable {declared : Feature} (related : Feature.Related same declared declared')

include related

theorem Feature.Related.endsOpen_eq : declared'.endsOpen = declared.endsOpen := by
  simp only [Feature.endsOpen, List.getLast?_eq_getElem?, ← related.formals_related.length_eq]
  have lastRelated := option_rel_getElem? related.formals_related (declared.formals.length - 1)
  generalize declared.formals[declared.formals.length - 1]? = last at lastRelated ⊢
  generalize declared'.formals[declared.formals.length - 1]? = last' at lastRelated ⊢
  cases lastRelated with
  | none => rfl
  | some formalRelated => exact formalRelated.isOpen_eq

theorem Feature.Related.accepts_eq (count : Nat) :
    declared'.accepts count = declared.accepts count := by
  simp only [Feature.accepts, related.endsOpen_eq, related.formals_related.length_eq]

theorem Feature.Related.expectedCount_eq : declared'.expectedCount = declared.expectedCount := by
  simp only [Feature.expectedCount, related.endsOpen_eq, related.formals_related.length_eq]

end

namespace Coupling

open Checker

def CouplesSubstituters (K : Coupling) (substitute substitute' : Substituter) : Prop :=
  ∀ world owner actuals actuals' target target',
    List.Forall₂ (K.same world) actuals actuals' → K.same world target target' →
      K.couples world (substitute owner actuals target) (substitute' owner actuals' target') K.same

namespace Engine

variable {K : Coupling} (engine : K.Engine) {world : K.World}
  {inner inner' : Substituter} {owner : FeatureId} {actuals actuals' : List TypeId}
  {ty ty' target target' : TypeId} {args args' list list' : List TypeId}
  {outer outer' : Option TypeId}

include engine

/-! ## Actuals and formals -/

theorem actualsMatch (owner : FeatureId)
    (sameActuals : List.Forall₂ (K.same world) actuals actuals') :
    K.couples world (actualsMatch owner actuals) (actualsMatch owner actuals') K.Agrees := by
  refine engine.bind (engine.feature owner) ?_
  intro world' declared declared' _ related
  refine engine.pure ?_
  rw [Agrees, related.accepts_eq, sameActuals.length_eq]

theorem actualFor (sameActuals : List.Forall₂ (K.same world) actuals actuals') (id : FormalId) :
    K.couples world (actualFor actuals id) (actualFor actuals' id) K.same := by
  unfold Checker.actualFor
  have actualRelated := option_rel_getElem? sameActuals id.index
  generalize actuals[id.index]? = actual at actualRelated ⊢
  generalize actuals'[id.index]? = actual' at actualRelated ⊢
  cases actualRelated with
  | some actualSame => exact engine.pure actualSame
  | none =>
    refine engine.bind_agrees (engine.expect .actualPresent false) ?_
    intro world' _ _
    exact engine.pure (engine.same_error world')

theorem substituteFormal (owner : FeatureId)
    (sameActuals : List.Forall₂ (K.same world) actuals actuals') (tySame : K.same world ty ty')
    (id : FormalId) (boxed : Bool) :
    K.couples world (substituteFormal owner actuals ty id boxed)
      (substituteFormal owner actuals' ty' id boxed) K.same := by
  unfold Checker.substituteFormal
  split
  · exact engine.pure tySame
  · refine engine.bind_agrees (engine.ensureNotOpen tySame) ?_
    intro world₁ closed step₁
    cases closed with
    | false => exact engine.pure (engine.same_error world₁)
    | true =>
      refine engine.bind (engine.actualFor (engine.list_later sameActuals step₁) id) ?_
      intro world₂ actual actual' _ actualSame
      cases boxed with
      | false => exact engine.pure actualSame
      | true => exact engine.asRef actualSame

/-! ## Lists -/

theorem areFormals {formals formals' : List Formal}
    (formalsRelated : List.Forall₂ (Formal.Related (K.same world)) formals formals')
    (sameList : List.Forall₂ (K.same world) list list') :
    K.couples world (areFormals formals list) (areFormals formals' list') K.Agrees := by
  refine engine.read fun types types' stores => ?_
  have wantedEq : formals'.map (fun formal => Node.formal formal.id false) =
      formals.map fun formal => Node.formal formal.id false := by
    induction formalsRelated with
    | nil => rfl
    | cons formalRelated _ ih =>
      simp only [List.map_cons, ih, formalRelated.id_eq]
  rw [Agrees, wantedEq, decide_eq_decide]
  clear wantedEq formalsRelated
  induction sameList generalizing formals with
  | nil => simp
  | cons tySame _ ih =>
    cases formals with
    | nil => simp
    | cons formal rest =>
      simp only [List.map_cons, List.cons.injEq, ih,
        (engine.layer stores tySame).1.eq_iff engine.same_iff (.formal formal.id false)]

theorem openPosition? (owner : FeatureId) (tySame : K.same world ty ty') :
    K.couples world (openPosition? owner ty) (openPosition? owner ty') K.Agrees := by
  refine engine.bind_agrees (engine.read fun _ _ stores => engine.formalId?_eq stores tySame) ?_
  intro world₁ id step₁
  cases id with
  | none => exact engine.pure rfl
  | some id =>
    dsimp only
    split
    · exact engine.pure rfl
    · refine engine.bind_agrees (engine.isOpenFormal (engine.same_later tySame step₁)) ?_
      intro world₂ isOpen _
      cases isOpen with
      | false => exact engine.pure rfl
      | true => exact engine.pure rfl

section

variable (substituters : K.CouplesSubstituters inner inner')

include substituters

theorem substituteEach (owner : FeatureId)
    (sameActuals : List.Forall₂ (K.same world) actuals actuals')
    (sameList : List.Forall₂ (K.same world) list list') :
    K.couples world (substituteEach inner owner actuals list)
      (substituteEach inner' owner actuals' list') fun world' =>
        List.Forall₂ (K.same world') := by
  induction list generalizing world list' with
  | nil =>
    cases sameList
    exact engine.pure .nil
  | cons ty rest ih =>
    obtain _ | ⟨tySame, restSame⟩ := sameList
    rename_i ty' rest'
    have trailing : K.couples world (trailingOpen? owner ty rest)
        (trailingOpen? owner ty' rest') K.Agrees := by
      have emptyEq : rest'.isEmpty = rest.isEmpty := by cases restSame <;> rfl
      unfold Checker.trailingOpen?
      rw [emptyEq]
      split
      · exact engine.openPosition? owner tySame
      · exact engine.pure rfl
    refine engine.bind_agrees trailing ?_
    intro world₁ position step₁
    have sameActuals₁ := engine.list_later sameActuals step₁
    cases position with
    | some position => exact engine.pure (List.forall₂_drop position sameActuals₁)
    | none =>
      refine engine.bind (substituters world₁ owner _ _ _ _ sameActuals₁
        (engine.same_later tySame step₁)) ?_
      intro world₂ first first' step₂ firstSame
      have step := engine.later_trans step₁ step₂
      refine engine.bind (ih (engine.list_later sameActuals step)
        (engine.list_later restSame step)) ?_
      intro world₃ others others' step₃ othersSame
      exact engine.pure (.cons (engine.same_later firstSame step₃) othersSame)

theorem substituteListBy (owner : FeatureId)
    (sameActuals : List.Forall₂ (K.same world) actuals actuals')
    (sameList : List.Forall₂ (K.same world) list list') :
    K.couples world (substituteListBy inner owner actuals list)
      (substituteListBy inner' owner actuals' list') fun world' =>
        List.Forall₂ (K.same world') := by
  refine engine.bind (engine.feature owner) ?_
  intro world₁ declared declared' step₁ related
  have sameList₁ := engine.list_later sameList step₁
  refine engine.bind_agrees (engine.areFormals related.formals_related sameList₁) ?_
  intro world₂ whole step₂
  have sameActuals₂ := engine.list_later sameActuals (engine.later_trans step₁ step₂)
  cases whole with
  | true => exact engine.pure sameActuals₂
  | false =>
    exact engine.substituteEach substituters owner sameActuals₂
      (engine.list_later sameList₁ step₂)

/-! ## Metatypes -/

theorem seenFromWithin (depth depth' : Nat) {self self' : TypeId}
    (selfSame : K.same world self self') (tySame : K.same world ty ty')
    (enough : self.index < depth) (enough' : self'.index < depth') :
    K.couples world (seenFromWithin inner depth self ty)
      (seenFromWithin inner' depth' self' ty') K.same := by
  induction depth generalizing world self self' ty ty' depth' with
  | zero => exact absurd enough (Nat.not_lt_zero _)
  | succ depth ih =>
    obtain ⟨depth', rfl⟩ : ∃ smaller, depth' = smaller + 1 := ⟨depth' - 1, by omega⟩
    refine engine.bind (engine.replaceThis tySame selfSame) ?_
    intro world₁ replaced replaced' step₁ replacedSame
    have selfSame₁ := engine.same_later selfSame step₁
    refine engine.bind (engine.node selfSame₁) ?_
    rintro world₂ layer layer' step₂ ⟨layerRelated, smaller, smaller'⟩
    have replacedSame₂ := engine.same_later replacedSame step₂
    cases layerRelated with
    | applied feature isRef isThis sameArgs sameOuter =>
      refine engine.bind (engine.feature feature) ?_
      intro world₃ declared declared' step₃ related
      rw [show declared'.isUniverse = declared.isUniverse from
        congrArg Option.isNone related.outer_eq]
      have replacedSame₃ := engine.same_later replacedSame₂ step₃
      have sameArgs₃ := engine.list_later sameArgs step₃
      cases declared.isUniverse with
      | true => exact engine.pure replacedSame₃
      | false =>
        cases sameOuter with
        | none => exact substituters world₃ feature _ _ _ _ sameArgs₃ replacedSame₃
        | @some around around' aroundSame =>
          have bound := smaller around (by simp [Node.children])
          have bound' := smaller' around' (by simp [Node.children])
          refine engine.bind (ih depth'
            (engine.same_later aroundSame step₃) replacedSame₃ (by omega) (by omega)) ?_
          intro world₄ seen seen' step₄ seenSame
          exact substituters world₄ feature _ _ _ _ (engine.list_later sameArgs₃ step₄)
            seenSame
    | _ => exact engine.pure replacedSame₂

theorem seenFrom {self self' : TypeId} (selfSame : K.same world self self')
    (tySame : K.same world ty ty') :
    K.couples world (seenFrom inner self ty) (seenFrom inner' self' ty') K.same :=
  engine.seenFromWithin substituters _ _ selfSame tySame (Nat.lt_succ_self _) (Nat.lt_succ_self _)

theorem settleMetatypeArgs (sameArgs : List.Forall₂ (K.same world) args args') :
    K.couples world (settleMetatypeArgs inner args) (settleMetatypeArgs inner' args')
      fun world' => List.Forall₂ (K.same world') := by
  cases sameArgs with
  | nil => exact engine.pure .nil
  | @cons self self' _ _ selfSame restSame =>
    refine engine.bind (engine.mapM engine.same_persistent engine.same_persistent restSame ?_) ?_
    · intro world₁ ty ty' step₁ tySame
      have selfSame₁ := engine.same_later selfSame step₁
      by_cases itself : ty = self
      · rw [if_pos itself, if_pos ((engine.same_iff tySame selfSame₁).mp itself)]
        exact engine.pure tySame
      · rw [if_neg itself, if_neg (mt (engine.same_iff tySame selfSame₁).mpr itself)]
        exact engine.seenFrom substituters selfSame₁ tySame
    intro world₁ settled settled' step₁ settledSame
    exact engine.pure (.cons (engine.same_later selfSame step₁) settledSame)

theorem settleArgs (tySame : K.same world ty ty')
    (sameArgs : List.Forall₂ (K.same world) args args') :
    K.couples world (settleArgs inner ty args) (settleArgs inner' ty' args')
      fun world' => List.Forall₂ (K.same world') := by
  refine engine.bind_agrees (engine.isMetatype tySame) ?_
  intro world₁ metatype step₁
  have sameArgs₁ := engine.list_later sameArgs step₁
  cases metatype with
  | false => exact engine.pure sameArgs₁
  | true => exact engine.settleMetatypeArgs substituters sameArgs₁

/-! ## One step -/

theorem substituteParts (owner : FeatureId)
    (sameActuals : List.Forall₂ (K.same world) actuals actuals') (tySame : K.same world ty ty')
    (sameArgs : List.Forall₂ (K.same world) args args')
    (sameOuter : Option.Rel (K.same world) outer outer') :
    K.couples world (substituteParts inner owner actuals target ty args outer)
      (substituteParts inner' owner actuals' target' ty' args' outer') K.same := by
  refine engine.bind (engine.substituteListBy substituters owner sameActuals sameArgs) ?_
  intro world₁ mapped mapped' step₁ mappedSame
  refine engine.bind (engine.optionMapM (engine.option_later sameOuter step₁)
    fun around around' _ _ aroundSame => substituters world₁ owner _ _ _ _
      (engine.list_later sameActuals step₁) aroundSame) ?_
  intro world₂ newOuter newOuter' step₂ newOuterSame
  have step₁₂ := engine.later_trans step₁ step₂
  refine engine.bind (engine.settleArgs substituters (engine.same_later tySame step₁₂)
    (engine.list_later mappedSame step₂)) ?_
  intro world₃ newArgs newArgs' step₃ newArgsSame
  have step := engine.later_trans step₁₂ step₃
  have newOuterSame₃ := engine.option_later newOuterSame step₃
  have unchanged : newArgs = args ∧ newOuter = outer ↔ newArgs' = args' ∧ newOuter' = outer' :=
    and_congr (forall₂_eq_iff engine.same_iff newArgsSame (engine.list_later sameArgs step))
      (option_rel_eq_iff engine.same_iff newOuterSame₃ (engine.option_later sameOuter step))
  have errorSame := engine.same_error world₃
  have failed : (newOuter = some .error ∨ .error ∈ newArgs) ↔
      (newOuter' = some .error ∨ .error ∈ newArgs') :=
    or_congr (option_rel_eq_iff engine.same_iff newOuterSame₃ (Option.Rel.some errorSame))
      (mem_iff_of_forall₂ engine.same_iff errorSame newArgsSame)
  simp only [unchanged, failed]
  split
  · exact engine.pure (engine.same_later tySame step)
  · split
    · refine engine.bind_agrees (engine.record _ _) ?_
      intro world₄ _ _
      exact engine.pure (engine.same_error world₄)
    · exact engine.rebuild (engine.same_later tySame step) newArgsSame newOuterSame₃

/-- One step is coupled if the substitutions that it calls for are. -/
theorem substituteStep : K.CouplesSubstituters (substituteStep inner) (substituteStep inner') := by
  intro world owner actuals actuals' target target' sameActuals targetSame
  refine engine.bind (engine.feature owner) ?_
  intro world₁ declared declared' step₁ related
  refine engine.bind_agrees (engine.record _ _) ?_
  intro world₂ _ step₂
  have step₁₂ := engine.later_trans step₁ step₂
  refine engine.bind (engine.foldlM engine.parent_persistent
    (engine.parent_persistent.list _ _ _ _ related.parents_related step₂)
    (engine.same_later targetSame step₁₂) ?_) ?_
  · intro world₃ ty ty' parent parent' _ tySame parentRelated
    rw [parentRelated.ancestor_eq]
    exact substituters world₃ parent.ancestor _ _ _ _ parentRelated.actuals_same tySame
  intro world₃ ty ty' step₃ tySame
  refine engine.bind (engine.node tySame) ?_
  rintro world₄ layer layer' step₄ ⟨layerRelated, _, _⟩
  have sameActuals₄ := engine.list_later sameActuals
    (engine.later_trans step₁₂ (engine.later_trans step₃ step₄))
  have tySame₄ := engine.same_later tySame step₄
  cases layerRelated with
  | formal id boxed => exact engine.substituteFormal owner sameActuals₄ tySame₄ id boxed
  | applied feature isRef isThis sameArgs sameOuter =>
    exact engine.substituteParts substituters owner sameActuals₄ tySame₄ sameArgs sameOuter
  | _ => exact engine.pure tySame₄

end

/-! ## Substitution through a feature -/

/-- The second run may nest its calls more deeply than the first. -/
theorem substituteWithin {depth depth' : Nat} (enough : depth ≤ depth') :
    K.CouplesSubstituters (substituteWithin depth) (substituteWithin depth') := by
  induction depth generalizing depth' with
  | zero =>
    intro world owner actuals actuals' target target' _ _
    exact engine.exhausted
  | succ depth ih =>
    obtain ⟨depth', rfl⟩ : ∃ smaller, depth' = smaller + 1 := ⟨depth' - 1, by omega⟩
    intro world owner actuals actuals' target target' sameActuals targetSame
    refine engine.bind_agrees (engine.actualsMatch owner sameActuals) ?_
    intro world₁ fits step₁
    refine engine.bind_agrees (engine.expect .actualsMatch fits) ?_
    intro world₂ _ step₂
    have step := engine.later_trans step₁ step₂
    have targetSame₂ := engine.same_later targetSame step
    refine engine.bind_agrees
      (engine.read fun _ _ stores => engine.mentionsFormal_eq stores targetSame₂) ?_
    intro world₃ mentions step₃
    have targetSame₃ := engine.same_later targetSame₂ step₃
    cases mentions with
    | false => exact engine.pure targetSame₃
    | true =>
      have shallower : depth ≤ depth' := by omega
      have sameActuals₃ := engine.list_later sameActuals (engine.later_trans step step₃)
      refine engine.byOwner shallower sameActuals₃ targetSame₃ ?_
      intro world₄ step₄
      exact engine.substituteStep (ih shallower) world₄ owner _ _ _ _
        (engine.list_later sameActuals₃ step₄) (engine.same_later targetSame₃ step₄)

theorem substitute : K.CouplesSubstituters substitute substitute := by
  intro world owner actuals actuals' target target' sameActuals targetSame
  exact engine.limit fun depth => engine.substituteWithin (Nat.le_refl depth) world owner _ _ _ _
    sameActuals targetSame

theorem substituteListWithin {depth depth' : Nat} (enough : depth ≤ depth') (owner : FeatureId)
    (sameActuals : List.Forall₂ (K.same world) actuals actuals')
    (sameList : List.Forall₂ (K.same world) list list') :
    K.couples world (substituteListWithin depth owner actuals list)
      (substituteListWithin depth' owner actuals' list') fun world' =>
        List.Forall₂ (K.same world') :=
  engine.substituteListBy (engine.substituteWithin enough) owner sameActuals sameList

/-- Corresponding lists become corresponding lists. -/
theorem replaceFormals (tySame : K.same world ty ty')
    (sameList : List.Forall₂ (K.same world) list list') :
    K.couples world (replaceFormals ty list) (replaceFormals ty' list') fun world' =>
      List.Forall₂ (K.same world') := by
  refine engine.bind (engine.node tySame) ?_
  rintro world₁ layer layer' step₁ ⟨layerRelated, _, _⟩
  have sameList₁ := engine.list_later sameList step₁
  have featureMissing : K.couples world₁ (do Checker.expect .featurePresent false; return list)
      (do Checker.expect .featurePresent false; return list') fun world' =>
        List.Forall₂ (K.same world') := by
    refine engine.bind_agrees (engine.expect .featurePresent false) ?_
    intro world₂ _ step₂
    exact engine.pure (engine.list_later sameList₁ step₂)
  cases layerRelated with
  | applied feature isRef isThis sameArgs _ =>
    exact engine.limit fun depth =>
      engine.substituteListWithin (Nat.le_refl depth) feature sameArgs sameList₁
  | _ => exact featureMissing

/-! ## Substitution through a type -/

theorem viewStep (substituters : K.CouplesSubstituters inner inner')
    {view view' : TypeId → TypeId → CheckM TypeId}
    (views : ∀ world source source' target target',
      K.same world source source' → K.same world target target' →
        K.couples world (view source target) (view' source' target') K.same)
    {source source' : TypeId} (sourceSame : K.same world source source')
    (targetSame : K.same world target target') :
    K.couples world (viewStep inner view source target)
      (viewStep inner' view' source' target') K.same := by
  refine engine.bind (engine.node sourceSame) ?_
  rintro world₁ layer layer' step₁ ⟨layerRelated, _, _⟩
  have sourceSame₁ := engine.same_later sourceSame step₁
  have targetSame₁ := engine.same_later targetSame step₁
  cases layerRelated with
  | formal id boxed =>
    refine engine.bind (engine.constraint? id) ?_
    intro world₂ constraint constraint' step₂ constraintRelated
    have targetSame₂ := engine.same_later targetSame₁ step₂
    cases constraintRelated with
    | none => exact engine.pure targetSame₂
    | @some constraint constraint' constraintSame =>
      simp only [engine.same_iff constraintSame (engine.same_later sourceSame₁ step₂)]
      split
      · exact engine.pure targetSame₂
      · exact views world₂ _ _ _ _ constraintSame targetSame₂
  | applied feature isRef isThis sameArgs sameOuter =>
    refine engine.bind (substituters world₁ feature _ _ _ _ sameArgs targetSame₁) ?_
    intro world₂ result result' step₂ resultSame
    cases sameOuter with
    | none => exact engine.pure resultSame
    | some outerSame => exact views world₂ _ _ _ _ (engine.same_later outerSame step₂) resultSame
  | error => exact engine.pure (engine.same_error world₁)
  | void => exact engine.pure targetSame₁
  | undefined => exact engine.pure targetSame₁

/-- Corresponding types are seen from corresponding types. -/
theorem substituteViaWithin {depth depth' : Nat} (enough : depth ≤ depth') {source source' : TypeId}
    (sourceSame : K.same world source source') (targetSame : K.same world target target') :
    K.couples world (substituteViaWithin depth source target)
      (substituteViaWithin depth' source' target') K.same := by
  induction depth generalizing depth' world source source' target target' with
  | zero => exact engine.exhausted
  | succ depth ih =>
    obtain ⟨depth', rfl⟩ : ∃ smaller, depth' = smaller + 1 := ⟨depth' - 1, by omega⟩
    refine engine.bind_agrees
      (engine.read fun _ _ stores => engine.mentionsFormal_eq stores targetSame) ?_
    intro world₁ mentions step₁
    have sourceSame₁ := engine.same_later sourceSame step₁
    have targetSame₁ := engine.same_later targetSame step₁
    cases mentions with
    | false => exact engine.pure targetSame₁
    | true =>
      have shallower : depth ≤ depth' := by omega
      refine engine.viaType shallower sourceSame₁ targetSame₁ ?_
      intro world₂ step₂
      exact engine.viewStep (engine.substituteWithin shallower)
        (fun _ _ _ _ _ => ih shallower)
        (engine.same_later sourceSame₁ step₂) (engine.same_later targetSame₁ step₂)

theorem substituteVia {source source' : TypeId} (sourceSame : K.same world source source')
    (targetSame : K.same world target target') :
    K.couples world (substituteVia source target) (substituteVia source' target') K.same :=
  engine.limit fun depth =>
    engine.substituteViaWithin (Nat.le_refl depth) sourceSame targetSame

end Engine

end Coupling

end FeatureTypes

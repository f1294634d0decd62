import FeatureTypes.Checker.Metatype
import FeatureTypes.Checker.Validation
import FeatureTypes.Proofs.Coupling.Substitution

/-!
# Coupled checks
-/

namespace FeatureTypes.Coupling

variable {constraint constraint' : TypeId}

open Checker

def CouplesChecks (K : Coupling) (check check' : AssignabilityCheck) : Prop :=
  ∀ world collecting target target' actual actual',
    K.same world target target' → K.same world actual actual' →
      K.couples world (check collecting target actual) (check' collecting target' actual') K.Agrees

namespace Engine

variable {K : Coupling} (engine : K.Engine) {world : K.World}
  {check check' : AssignabilityCheck} {depth depth' : Nat}
  {ty ty' target target' actual actual' left left' right right' : TypeId}

include engine

/-! ## Summands -/

theorem summandsWithin? (enough : depth ≤ depth') (tySame : K.same world ty ty') :
    K.couples world (summandsWithin? depth ty) (summandsWithin? depth' ty') fun world' =>
      Option.Rel (List.Forall₂ (K.same world')) := by
  refine engine.bind (engine.node tySame) ?_
  rintro world₁ layer layer' step₁ ⟨layerRelated, _, _⟩
  cases layerRelated with
  | applied feature isRef isThis sameArgs _ =>
    refine engine.bind (engine.feature feature) ?_
    intro world₂ declared declared' step₂ related
    have step₁₂ := engine.later_trans step₁ step₂
    have summandsRelated := related.summands_related
    generalize declared.summands = summands at summandsRelated ⊢
    generalize declared'.summands = summands' at summandsRelated ⊢
    cases summandsRelated with
    | none => exact engine.pure Option.Rel.none
    | some sameSummands =>
      refine engine.bind (engine.substituteListWithin enough feature
        (engine.list_later sameArgs step₂) sameSummands) ?_
      intro world₃ substituted substituted' step₃ substitutedSame
      have step := engine.later_trans step₁₂ step₃
      refine engine.bind (engine.mapM engine.same_persistent engine.same_persistent
        substitutedSame fun world' summand summand' step' summandSame =>
          engine.replaceThis summandSame
            (engine.same_later tySame (engine.later_trans step step'))) ?_
      intro world₄ seen seen' _ seenSame
      exact engine.pure (Option.Rel.some seenSame)
  | _ => exact engine.pure Option.Rel.none

/-- Corresponding types have corresponding summands, or none on both sides. -/
theorem summands? (tySame : K.same world ty ty') :
    K.couples world (summands? ty) (summands? ty') fun world' =>
      Option.Rel (List.Forall₂ (K.same world')) :=
  engine.limit fun depth => engine.summandsWithin? (Nat.le_refl depth) tySame

/-! ## Assignability -/

theorem isAbsorbing_eq (tySame : K.same world ty ty') : isAbsorbing ty' = isAbsorbing ty := by
  simp only [isAbsorbing, engine.same_iff tySame (engine.same_error world),
    engine.same_iff tySame (engine.same_undefined world)]

theorem ancestorSeenFrom (enough : depth ≤ depth') {ancestor ancestor' : TypeId}
    (actualSame : K.same world actual actual') (ancestorSame : K.same world ancestor ancestor') :
    K.couples world (ancestorSeenFrom depth actual ancestor)
      (ancestorSeenFrom depth' actual' ancestor') K.same := by
  refine engine.bind (engine.substituteViaWithin enough actualSame ancestorSame) ?_
  intro world₁ seen seen' step₁ seenSame
  refine engine.bind (engine.replaceThis seenSame (engine.same_later actualSame step₁)) ?_
  intro world₂ replaced replaced' _ replacedSame
  exact engine.asRef replacedSame

section

variable (checks : K.CouplesChecks check check')

include checks

section

variable (enough : depth ≤ depth') (collecting : Bool) (targetSame : K.same world target target')
  (actualSame : K.same world actual actual')

include enough collecting targetSame actualSame

theorem anyParentAssignable {parents parents' : List Parent}
    (parentsRelated : List.Forall₂ (Parent.Related (K.same world)) parents parents') :
    K.couples world (anyParentAssignable check depth collecting target actual parents)
      (anyParentAssignable check' depth' collecting target' actual' parents') K.Agrees := by
  induction parents generalizing world parents' with
  | nil =>
    cases parentsRelated
    exact engine.pure rfl
  | cons parent rest ih =>
    obtain _ | ⟨parentRelated, restRelated⟩ := parentsRelated
    refine engine.bind
      (engine.ancestorSeenFrom enough actualSame parentRelated.ty_same) ?_
    intro world₁ ancestor ancestor' step₁ ancestorSame
    refine engine.bind_agrees (checks world₁ collecting _ _ _ _
      (engine.same_later targetSame step₁) ancestorSame) ?_
    intro world₂ first step₂
    split
    · exact engine.pure rfl
    · have step := engine.later_trans step₁ step₂
      refine engine.bind_agrees (ih (engine.same_later targetSame step)
        (engine.same_later actualSame step)
        (engine.parent_persistent.list _ _ _ _ restRelated step)) ?_
      intro world₃ others _
      exact engine.pure rfl

theorem ancestorAssignable :
    K.couples world (ancestorAssignable check depth collecting target actual)
      (ancestorAssignable check' depth' collecting target' actual') K.Agrees := by
  have counts : K.couples world (readTypes (ancestorsCount · target actual))
      (readTypes (ancestorsCount · target' actual')) K.Agrees :=
    engine.read fun _ _ stores => by
      simp only [Agrees, ancestorsCount, engine.isFormal_eq stores targetSame,
        engine.isRef_eq stores targetSame, engine.isRef_eq stores actualSame]
  refine engine.bind_agrees counts ?_
  intro world₁ count step₁
  cases count with
  | false => exact engine.pure rfl
  | true =>
    refine engine.bind (engine.node (engine.same_later actualSame step₁)) ?_
    rintro world₂ layer layer' step₂ ⟨layerRelated, _, _⟩
    have step₁₂ := engine.later_trans step₁ step₂
    have targetSame₂ := engine.same_later targetSame step₁₂
    have actualSame₂ := engine.same_later actualSame step₁₂
    cases layerRelated with
    | formal id boxed =>
      refine engine.bind (engine.constraint? id) ?_
      intro world₃ constraint constraint' step₃ constraintRelated
      cases constraintRelated with
      | none => exact engine.pure rfl
      | some constraintSame =>
        refine engine.bind (engine.asRef constraintSame) ?_
        intro world₄ boxed boxed' step₄ boxedSame
        have step₃₄ := engine.later_trans step₃ step₄
        simp only [engine.same_iff boxedSame (engine.same_later actualSame₂ step₃₄)]
        split
        · exact engine.pure rfl
        · refine engine.bind_agrees (checks world₄ false _ _ _ _
            (engine.same_later targetSame₂ step₃₄) boxedSame) ?_
          intro world₅ verdict _
          exact engine.pure rfl
    | applied feature isRef isThis _ _ =>
      refine engine.bind (engine.feature feature) ?_
      intro world₃ declared declared' step₃ related
      exact engine.anyParentAssignable checks enough collecting
        (engine.same_later targetSame₂ step₃) (engine.same_later actualSame₂ step₃)
        related.parents_related
    | _ => exact engine.pure rfl

end

theorem anySummandAssignable (actualSame : K.same world actual actual')
    {summands summands' : List TypeId}
    (sameSummands : List.Forall₂ (K.same world) summands summands') :
    K.couples world (anySummandAssignable check actual summands)
      (anySummandAssignable check' actual' summands') K.Agrees := by
  induction summands generalizing world summands' with
  | nil =>
    cases sameSummands
    exact engine.pure rfl
  | cons summand rest ih =>
    obtain _ | ⟨summandSame, restSame⟩ := sameSummands
    refine engine.bind_agrees (checks world false _ _ _ _ summandSame actualSame) ?_
    intro world₁ verdict step₁
    split
    · exact engine.pure rfl
    · exact ih (engine.same_later actualSame step₁)
        (engine.list_later restSame step₁)

theorem choiceAssignable (enough : depth ≤ depth') (targetSame : K.same world target target')
    (actualSame : K.same world actual actual') :
    K.couples world (choiceAssignable check depth target actual)
      (choiceAssignable check' depth' target' actual') K.Agrees := by
  refine engine.bind_agrees
    (engine.read fun _ _ stores => engine.isRef_eq stores targetSame) ?_
  intro world₁ isRef step₁
  cases isRef with
  | true => exact engine.pure rfl
  | false =>
    refine engine.bind (engine.summandsWithin? enough (engine.same_later targetSame step₁)) ?_
    intro world₂ summands summands' step₂ summandsRelated
    cases summandsRelated with
    | none => exact engine.pure rfl
    | some sameSummands =>
      exact engine.anySummandAssignable checks
        (engine.same_later actualSame (engine.later_trans step₁ step₂)) sameSummands

end

theorem collectedName (collecting : Bool) (tySame : K.same world ty ty') :
    K.couples world (collectedName collecting ty) (collectedName collecting ty') K.Agrees := by
  cases collecting with
  | false => exact engine.pure rfl
  | true =>
    refine engine.bind_agrees (engine.display tySame) ?_
    intro world' text _
    exact engine.pure rfl

theorem assignableStep (checks : K.CouplesChecks check check') (enough : depth ≤ depth') :
    K.CouplesChecks (assignableStep check depth) (assignableStep check' depth') := by
  intro world collecting target target' actual actual' targetSame actualSame
  refine engine.bind_agrees (engine.collectedName collecting actualSame) ?_
  intro world₁ names step₁
  refine engine.bind (engine.dropThisFormals (engine.same_later targetSame step₁)) ?_
  intro world₂ target target' step₂ targetSame
  refine engine.bind (engine.dropThisFormals
    (engine.same_later actualSame (engine.later_trans step₁ step₂))) ?_
  intro world₃ actual actual' step₃ actualSame
  have targetSame₃ := engine.same_later targetSame step₃
  simp only [engine.same_iff targetSame₃ actualSame,
    engine.same_iff actualSame (engine.same_void world₃), engine.isAbsorbing_eq targetSame₃,
    engine.isAbsorbing_eq actualSame]
  split
  · exact engine.pure rfl
  · refine engine.bind_agrees
      (engine.ancestorAssignable checks enough collecting targetSame₃ actualSame) ?_
    intro world₄ above step₄
    split
    · exact engine.pure rfl
    · refine engine.bind_agrees (engine.choiceAssignable checks enough
        (engine.same_later targetSame₃ step₄) (engine.same_later actualSame step₄)) ?_
      intro world₅ holds _
      exact engine.pure rfl

/-- The second check may nest deeper, and has the answer of the first. -/
theorem assignableWithin (enough : depth ≤ depth') :
    K.CouplesChecks (assignableWithin depth) (assignableWithin depth') := by
  induction depth generalizing depth' with
  | zero =>
    intro world collecting target target' actual actual' _ _
    exact engine.exhausted
  | succ depth ih =>
    obtain ⟨depth', rfl⟩ : ∃ smaller, depth' = smaller + 1 := ⟨depth' - 1, by omega⟩
    have shallower : depth ≤ depth' := by omega
    exact engine.assignableStep (ih shallower) shallower

section

variable (targetSame : K.same world target target') (actualSame : K.same world actual actual')

include targetSame actualSame

theorem isAssignable :
    K.couples world (isAssignable target actual) (isAssignable target' actual') K.Agrees := by
  refine engine.limit fun depth => engine.bind_agrees
    (engine.assignableWithin (Nat.le_refl depth) world false _ _ _ _ targetSame actualSame) ?_
  intro world' verdict _
  exact engine.pure rfl

theorem isAssignableCollecting (names : List String) :
    K.couples world (isAssignableCollecting target actual names)
      (isAssignableCollecting target' actual' names) K.Agrees := by
  refine engine.limit fun depth => engine.bind_agrees
    (engine.assignableWithin (Nat.le_refl depth) world true _ _ _ _ targetSame actualSame) ?_
  intro world' verdict _
  exact engine.pure rfl

theorem isDirectlyAssignable :
    K.couples world (isDirectlyAssignable target actual) (isDirectlyAssignable target' actual')
      K.Agrees := by
  refine engine.limit fun depth => engine.bind_agrees (engine.isChoice targetSame) ?_
  intro world₁ choice step₁
  have targetSame₁ := engine.same_later targetSame step₁
  have actualSame₁ := engine.same_later actualSame step₁
  cases choice with
  | true =>
    refine engine.pure ?_
    simp only [Agrees, engine.same_iff targetSame₁ actualSame₁]
  | false =>
    refine engine.bind_agrees (engine.assignableWithin (Nat.le_refl depth) world₁ false _ _ _ _
      targetSame₁ actualSame₁) ?_
    intro world₂ verdict _
    exact engine.pure rfl

theorem isAssignableOrError :
    K.couples world (isAssignableOrError target actual) (isAssignableOrError target' actual')
      K.Agrees := by
  have moot : K.couples world
      (readTypes fun types => types.mentionsError target || types.mentionsError actual)
      (readTypes fun types => types.mentionsError target' || types.mentionsError actual')
      K.Agrees :=
    engine.read fun _ _ stores => by
      simp only [Agrees, engine.mentionsError_eq stores targetSame,
        engine.mentionsError_eq stores actualSame]
  refine engine.bind_agrees moot ?_
  intro world₁ isMoot step₁
  cases isMoot with
  | true => exact engine.pure rfl
  | false =>
    exact engine.isAssignable (engine.same_later targetSame step₁)
      (engine.same_later actualSame step₁)

/-! ## Unions -/

theorem ifAssignable {next next' : CheckM TypeId} (tySame : K.same world ty ty')
    (otherwise : ∀ world', K.later world world' → K.couples world' next next' K.same) :
    K.couples world (do if ← Checker.isAssignable target actual then return ty else next)
      (do if ← Checker.isAssignable target' actual' then return ty' else next') K.same := by
  refine engine.bind_agrees (engine.isAssignable targetSame actualSame) ?_
  intro world' holds step
  cases holds with
  | true => exact engine.pure (engine.same_later tySame step)
  | false => exact otherwise world' step

end

/-- Corresponding types have corresponding unions. -/
theorem union (leftSame : K.same world left left') (rightSame : K.same world right right') :
    K.couples world (union left right) (union left' right') K.same := by
  unfold Checker.union
  simp only [engine.same_iff leftSame (engine.same_error world),
    engine.same_iff rightSame (engine.same_error world),
    engine.same_iff leftSame (engine.same_undefined world),
    engine.same_iff rightSame (engine.same_undefined world),
    engine.same_iff leftSame (engine.same_void world),
    engine.same_iff rightSame (engine.same_void world)]
  split
  · exact engine.pure (engine.same_error world)
  · split
    · exact engine.pure (engine.same_undefined world)
    · split
      · exact engine.pure rightSame
      · split
        · exact engine.pure leftSame
        · refine engine.ifAssignable leftSame rightSame leftSame fun world₁ step₁ => ?_
          have leftSame₁ := engine.same_later leftSame step₁
          have rightSame₁ := engine.same_later rightSame step₁
          refine engine.ifAssignable rightSame₁ leftSame₁ rightSame₁ fun world₂ step₂ => ?_
          have leftSame₂ := engine.same_later leftSame₁ step₂
          have rightSame₂ := engine.same_later rightSame₁ step₂
          refine engine.bind (engine.asRef rightSame₂) ?_
          intro world₃ boxed boxed' step₃ boxedSame
          have leftSame₃ := engine.same_later leftSame₂ step₃
          have rightSame₃ := engine.same_later rightSame₂ step₃
          refine engine.ifAssignable leftSame₃ boxedSame leftSame₃ fun world₄ step₄ => ?_
          refine engine.bind (engine.asRef (engine.same_later leftSame₃ step₄)) ?_
          intro world₅ boxed boxed' step₅ boxedSame
          have rightSame₅ :=
            engine.same_later rightSame₃ (engine.later_trans step₄ step₅)
          exact engine.ifAssignable rightSame₅ boxedSame rightSame₅ fun world₆ _ =>
            engine.pure (engine.same_undefined world₆)

/-! ## Constraints -/

theorem sameShape (leftSame : K.same world left left') (rightSame : K.same world right right') :
    K.couples world (readTypes (sameShape · left right)) (readTypes (sameShape · left' right'))
      K.Agrees :=
  engine.read fun _ _ stores => by
    simp only [Agrees, Checker.sameShape, engine.feature?_eq stores leftSame,
      engine.feature?_eq stores rightSame, engine.argsLength_eq stores leftSame,
      engine.argsLength_eq stores rightSame]

theorem triviallyMeets (constraintSame : K.same world constraint constraint')
    (actualSame : K.same world actual actual') :
    K.couples world (readTypes (triviallyMeets · constraint actual))
      (readTypes (triviallyMeets · constraint' actual')) K.Agrees :=
  engine.read fun _ _ stores => by
    simp only [Agrees, Checker.triviallyMeets, engine.mentionsError_eq stores constraintSame,
      engine.mentionsError_eq stores actualSame, engine.isAbsorbing_eq constraintSame,
      engine.isAbsorbing_eq actualSame, engine.same_iff constraintSame actualSame,
      engine.same_iff actualSame (engine.same_void world)]

theorem anyParentMeets {check check' : TypeId → CheckM Bool}
    (checks : ∀ world' ty ty', K.later world world' → K.same world' ty ty' →
      K.couples world' (check ty) (check' ty') K.Agrees) (enough : depth ≤ depth')
    (actualSame : K.same world actual actual') {parents parents' : List Parent}
    (parentsRelated : List.Forall₂ (Parent.Related (K.same world)) parents parents') :
    K.couples world (anyParentMeets check depth actual parents)
      (anyParentMeets check' depth' actual' parents') K.Agrees := by
  induction parents generalizing world parents' with
  | nil =>
    cases parentsRelated
    exact engine.pure rfl
  | cons parent rest ih =>
    obtain _ | ⟨parentRelated, restRelated⟩ := parentsRelated
    refine engine.bind
      (engine.substituteViaWithin enough actualSame parentRelated.ty_same) ?_
    intro world₁ ancestor ancestor' step₁ ancestorSame
    refine engine.bind_agrees (checks world₁ _ _ step₁ ancestorSame) ?_
    intro world₂ meets step₂
    have step := engine.later_trans step₁ step₂
    cases meets with
    | true => exact engine.pure rfl
    | false =>
      exact ih
        (fun world' ty ty' step' => checks world' ty ty' (engine.later_trans step step'))
        (engine.same_later actualSame step)
        (engine.parent_persistent.list _ _ _ _ restRelated step)

/-- Corresponding constraints are met in the same cases. -/
theorem meetsConstraintWithin (enough : depth ≤ depth')
    (constraintSame : K.same world constraint constraint')
    (actualSame : K.same world actual actual') :
    K.couples world (meetsConstraintWithin depth constraint actual)
      (meetsConstraintWithin depth' constraint' actual') K.Agrees := by
  induction depth generalizing depth' world constraint constraint' actual actual' with
  | zero => exact engine.exhausted
  | succ depth ih =>
    obtain ⟨depth', rfl⟩ : ∃ smaller, depth' = smaller + 1 := ⟨depth' - 1, by omega⟩
    have shallower : depth ≤ depth' := by omega
    refine engine.bind_agrees (engine.triviallyMeets constraintSame actualSame) ?_
    intro world₁ isTrivial step₁
    cases isTrivial with
    | true => exact engine.pure rfl
    | false =>
      have constraintSame₁ := engine.same_later constraintSame step₁
      refine engine.bind_agrees
        (engine.read fun _ _ stores => engine.isFormal_eq stores constraintSame₁) ?_
      intro world₂ isFormal step₂
      cases isFormal with
      | true => exact engine.pure rfl
      | false =>
        have actualSame₂ := engine.same_later actualSame (engine.later_trans step₁ step₂)
        refine engine.bind (engine.node actualSame₂) ?_
        rintro world₃ layer layer' step₃ ⟨layerRelated, _, _⟩
        have constraintSame₃ :=
          engine.same_later constraintSame₁ (engine.later_trans step₂ step₃)
        have actualSame₃ := engine.same_later actualSame₂ step₃
        cases layerRelated with
        | formal id boxed =>
          refine engine.bind (engine.constraint? id) ?_
          intro world₄ bound bound' step₄ boundRelated
          cases boundRelated with
          | none => exact engine.pure rfl
          | some boundSame =>
            simp only [engine.same_iff boundSame (engine.same_later actualSame₃ step₄)]
            split
            · exact engine.pure rfl
            · exact ih shallower
                (engine.same_later constraintSame₃ step₄) boundSame
        | applied feature isRef isThis _ _ =>
          refine engine.bind_agrees (engine.sameShape constraintSame₃ actualSame₃) ?_
          intro world₄ sameShape step₄
          cases sameShape with
          | true => exact engine.pure rfl
          | false =>
            refine engine.bind (engine.feature feature) ?_
            intro world₅ declared declared' step₅ related
            have step₄₅ := engine.later_trans step₄ step₅
            exact engine.anyParentMeets
              (fun world' ty ty' step tySame => ih shallower
                (engine.same_later constraintSame₃ (engine.later_trans step₄₅ step))
                tySame)
              shallower (engine.same_later actualSame₃ step₄₅) related.parents_related
        | _ => exact engine.pure rfl

theorem meetsConstraint (constraintSame : K.same world constraint constraint')
    (actualSame : K.same world actual actual') :
    K.couples world (meetsConstraint constraint actual) (meetsConstraint constraint' actual')
      K.Agrees :=
  engine.limit fun depth =>
    engine.meetsConstraintWithin (Nat.le_refl depth) constraintSame actualSame

/-! ## Validation of choices -/

theorem overlap {first first' second second' : TypeId} (firstSame : K.same world first first')
    (secondSame : K.same world second second') :
    K.couples world (overlap first second) (overlap first' second') K.Agrees := by
  unfold Checker.overlap
  simp only [engine.same_iff firstSame secondSame]
  split
  · exact engine.pure rfl
  · have formals : K.couples world
        (readTypes fun types => types.isFormal first || types.isFormal second)
        (readTypes fun types => types.isFormal first' || types.isFormal second') K.Agrees :=
      engine.read fun _ _ stores => by
        simp only [Agrees, engine.isFormal_eq stores firstSame,
          engine.isFormal_eq stores secondSame]
    refine engine.bind_agrees formals ?_
    intro world₁ anyFormal step₁
    cases anyFormal with
    | true => exact engine.pure rfl
    | false =>
      have firstSame₁ := engine.same_later firstSame step₁
      have secondSame₁ := engine.same_later secondSame step₁
      refine engine.bind_agrees (engine.isDirectlyAssignable firstSame₁ secondSame₁) ?_
      intro world₂ holds step₂
      cases holds with
      | true => exact engine.pure rfl
      | false =>
        exact engine.isDirectlyAssignable (engine.same_later secondSame₁ step₂)
          (engine.same_later firstSame₁ step₂)

end Engine

namespace Reporting

variable {K : Coupling} (engine : K.Reporting) {world : K.World} {depth depth' : Nat}
  {ty ty' actual actual' : TypeId}

include engine

section

variable (tySame : K.same world ty ty') (span : Span)

include tySame span

theorem checkSummandPair {first first' second second' : TypeId}
    (firstSame : K.same world first first') (secondSame : K.same world second second') :
    K.couples world (checkSummandPair ty span first second)
      (checkSummandPair ty' span first' second') K.Agrees := by
  unfold Checker.checkSummandPair
  simp only [engine.same_iff firstSame (engine.same_error world),
    engine.same_iff secondSame (engine.same_error world)]
  split
  · exact engine.pure rfl
  · refine engine.bind_agrees (engine.overlap firstSame secondSame) ?_
    intro world₁ overlapping step₁
    cases overlapping with
    | false => exact engine.pure rfl
    | true =>
      refine engine.bind_agrees (engine.display (engine.same_later tySame step₁)) ?_
      intro world₂ tyText step₂
      have step₁₂ := engine.later_trans step₁ step₂
      refine engine.bind_agrees (engine.display (engine.same_later firstSame step₁₂)) ?_
      intro world₃ firstText step₃
      refine engine.bind_agrees (engine.display
        (engine.same_later secondSame (engine.later_trans step₁₂ step₃))) ?_
      intro world₄ secondText _
      exact engine.report _ span

theorem checkSummandPairs {summands summands' : List TypeId}
    (sameSummands : List.Forall₂ (K.same world) summands summands') :
    K.couples world (checkSummandPairs ty span summands) (checkSummandPairs ty' span summands')
      K.Agrees := by
  induction summands generalizing world summands' with
  | nil =>
    cases sameSummands
    exact engine.pure rfl
  | cons first rest ih =>
    obtain _ | ⟨firstSame, restSame⟩ := sameSummands
    refine engine.bind_agrees (engine.forM engine.same_persistent restSame
      fun world' second second' step secondSame => engine.checkSummandPair
        (engine.same_later tySame step) span (engine.same_later firstSame step) secondSame) ?_
    intro world₁ _ step₁
    exact ih (engine.same_later tySame step₁)
      (engine.list_later restSame step₁)

theorem checkByValue : K.couples world (checkByValue ty span) (checkByValue ty' span) K.Agrees := by
  refine engine.bind_agrees (engine.read fun _ _ stores => engine.isRef_eq stores tySame) ?_
  intro world₁ isRef step₁
  cases isRef with
  | false => exact engine.pure rfl
  | true =>
    refine engine.bind_agrees (engine.display (engine.same_later tySame step₁)) ?_
    intro world₂ text _
    exact engine.report _ span

/-- What is wrong with a choice is reported on both sides. -/
theorem checkChoice : K.couples world (checkChoice ty span) (checkChoice ty' span) K.Agrees := by
  refine engine.bind_agrees (engine.recordEntry .choice tySame) ?_
  intro world₁ _ step₁
  refine engine.bind (engine.summands? (engine.same_later tySame step₁)) ?_
  intro world₂ summands summands' step₂ summandsRelated
  cases summandsRelated with
  | none => exact engine.pure rfl
  | some sameSummands =>
    have tySame₂ := engine.same_later tySame (engine.later_trans step₁ step₂)
    refine engine.bind_agrees (engine.checkByValue tySame₂ span) ?_
    intro world₃ _ step₃
    exact engine.checkSummandPairs (engine.same_later tySame₂ step₃) span
      (engine.list_later sameSummands step₃)

end

/-! ## Validation of actuals -/

section Actuals

variable {inspect inspect' : TypeId → CheckM TypeId}
  (inspections : ∀ world ty ty', K.same world ty ty' →
    K.couples world (inspect ty) (inspect' ty') K.same)

omit engine in
theorem checkMeets (engine : K.Reporting) (enough : depth ≤ depth') (span : Span)
    {formal formal' : Formal} (formalRelated : Formal.Related (K.same world) formal formal')
    (actualSame : K.same world actual actual') :
    K.couples world (checkMeets depth span formal actual)
      (checkMeets depth' span formal' actual') K.Agrees := by
  refine engine.bind_agrees
    (engine.meetsConstraintWithin enough formalRelated.constraint_same actualSame) ?_
  intro world₁ meets step₁
  cases meets with
  | true => exact engine.pure rfl
  | false =>
    refine engine.bind_agrees
      (engine.display (engine.same_later formalRelated.constraint_same step₁)) ?_
    intro world₂ constraintText step₂
    refine engine.bind_agrees
      (engine.display (engine.same_later actualSame (engine.later_trans step₁ step₂))) ?_
    intro world₃ actualText _
    rw [formalRelated.name_eq]
    refine engine.bind_agrees (engine.report _ span) ?_
    intro world₄ _ _
    exact engine.pure rfl

include inspections

theorem checkActual (enough : depth ≤ depth') (tySame : K.same world ty ty') (span : Span)
    {formal formal' : Formal} (formalRelated : Formal.Related (K.same world) formal formal')
    (actualSame : K.same world actual actual') :
    K.couples world (checkActual inspect depth ty span formal actual)
      (checkActual inspect' depth' ty' span formal' actual') K.Agrees := by
  refine engine.bind (inspections world _ _ actualSame) ?_
  intro world₁ checked checked' step₁ checkedSame
  have formalRelated₁ := engine.formal_persistent _ _ _ _ formalRelated step₁
  have constraintChecked : K.couples world₁ (checkConstraintType inspect ty formal.constraint)
      (checkConstraintType inspect' ty' formal'.constraint) K.Agrees := by
    unfold Checker.checkConstraintType
    simp only [ne_eq, engine.same_iff formalRelated₁.constraint_same
      (engine.same_later tySame step₁)]
    split
    · refine engine.bind (inspections world₁ _ _ formalRelated₁.constraint_same) ?_
      intro world₂ _ _ _ _
      exact engine.pure rfl
    · exact engine.pure rfl
  refine engine.bind_agrees constraintChecked ?_
  intro world₂ _ step₂
  have step₁₂ := engine.later_trans step₁ step₂
  refine engine.bind_agrees (checkMeets engine enough span
    (engine.formal_persistent _ _ _ _ formalRelated₁ step₂)
    (engine.same_later actualSame step₁₂)) ?_
  intro world₃ meets step₃
  refine engine.pure ?_
  simp only [Agrees, ne_eq, engine.same_iff
    (engine.same_later checkedSame (engine.later_trans step₂ step₃)) (engine.same_error world₃)]

theorem checkActuals (enough : depth ≤ depth') (tySame : K.same world ty ty') (span : Span)
    {formals formals' : List Formal} {args args' : List TypeId}
    (formalsRelated : List.Forall₂ (Formal.Related (K.same world)) formals formals')
    (sameArgs : List.Forall₂ (K.same world) args args') :
    K.couples world (checkActuals inspect depth ty span (formals.zip args))
      (checkActuals inspect' depth' ty' span (formals'.zip args')) K.Agrees := by
  induction formals generalizing world formals' args args' with
  | nil =>
    cases formalsRelated
    exact engine.pure rfl
  | cons formal rest ih =>
    obtain _ | ⟨formalRelated, restRelated⟩ := formalsRelated
    cases args with
    | nil =>
      cases sameArgs
      exact engine.pure rfl
    | cons actual others =>
      obtain _ | ⟨actualSame, othersSame⟩ := sameArgs
      refine engine.bind_agrees
        (engine.checkActual inspections enough tySame span formalRelated actualSame) ?_
      intro world₁ first step₁
      refine engine.bind_agrees (ih (engine.same_later tySame step₁)
        (engine.formal_persistent.list _ _ _ _ restRelated step₁)
        (engine.list_later othersSame step₁)) ?_
      intro world₂ others _
      exact engine.pure rfl

end Actuals

/-- Both sides find fault with the same types. -/
theorem checkConstraintsWithin (span : Span) (enough : depth ≤ depth')
    (tySame : K.same world ty ty') :
    K.couples world (checkConstraintsWithin span depth ty)
      (checkConstraintsWithin span depth' ty') K.same := by
  induction depth generalizing depth' world ty ty' with
  | zero => exact engine.exhausted
  | succ depth ih =>
    obtain ⟨depth', rfl⟩ : ∃ smaller, depth' = smaller + 1 := ⟨depth' - 1, by omega⟩
    have shallower : depth ≤ depth' := by omega
    refine engine.bind_agrees (engine.recordEntry .constraints tySame) ?_
    intro world₁ _ step₁
    have tySame₁ := engine.same_later tySame step₁
    refine engine.bind (engine.node tySame₁) ?_
    rintro world₂ layer layer' step₂ ⟨layerRelated, _, _⟩
    have tySame₂ := engine.same_later tySame₁ step₂
    cases layerRelated with
    | applied feature isRef isThis sameArgs _ =>
      refine engine.bind (engine.feature feature) ?_
      intro world₃ declared declared' step₃ related
      have sameArgs₃ := engine.list_later sameArgs step₃
      simp only [related.accepts_eq, related.qualifiedName_eq, related.expectedCount_eq,
        ← sameArgs₃.length_eq]
      split
      · refine engine.bind_agrees (engine.report _ span) ?_
        intro world₄ _ _
        exact engine.pure (engine.same_error world₄)
      · refine engine.bind_agrees (engine.checkActuals
          (fun _ _ _ => ih shallower) shallower
          (engine.same_later tySame₂ step₃) span related.formals_related sameArgs₃) ?_
        intro world₄ inOrder step₄
        cases inOrder with
        | true => exact engine.pure (engine.same_later tySame₂ (engine.later_trans step₃ step₄))
        | false => exact engine.pure (engine.same_error world₄)
    | _ => exact engine.pure tySame₂

theorem checkConstraints (tySame : K.same world ty ty') (span : Span) :
    K.couples world (checkConstraints ty span) (checkConstraints ty' span) K.same :=
  engine.limit fun depth => engine.checkConstraintsWithin span (Nat.le_refl depth) tySame

end Reporting

/-! ## Metatypes -/

namespace Full

variable {K : Coupling} (full : K.Full) {world : K.World} {ty ty' : TypeId}

include full

theorem rootMetatype : K.couples world rootMetatype rootMetatype K.same := by
  refine full.bind_agrees full.typeRoot ?_
  intro world₁ root _
  cases root with
  | some root => exact full.selfType root
  | none =>
    refine full.bind_agrees (full.expect .typeRootPresent false) ?_
    intro world' _ _
    exact full.pure (full.same_error world')

theorem metatypeWithin (depth depth' : Nat) (tySame : K.same world ty ty')
    (enough : ty.index < depth) (enough' : ty'.index < depth') :
    K.couples world (metatypeWithin depth ty) (metatypeWithin depth' ty') K.same := by
  induction depth generalizing world ty ty' depth' with
  | zero => exact absurd enough (Nat.not_lt_zero _)
  | succ depth ih =>
    obtain ⟨depth', rfl⟩ : ∃ smaller, depth' = smaller + 1 := ⟨depth' - 1, by omega⟩
    refine full.bind (full.node tySame) ?_
    rintro world₁ layer layer' step₁ ⟨layerRelated, smaller, smaller'⟩
    have tySame₁ := full.same_later tySame step₁
    cases layerRelated with
    | formal id boxed =>
      refine full.bind_agrees full.reported ?_
      intro world₂ any _
      cases any with
      | true => exact full.pure (full.same_error world₂)
      | false => exact full.fail .metatypeOfFormal
    | applied feature isRef isThis sameArgs sameOuter =>
      refine full.bind (full.feature feature) ?_
      intro world₂ declared declared' step₂ related
      rw [show declared'.isUniverse = declared.isUniverse from
        congrArg Option.isNone related.outer_eq]
      have tySame₂ := full.same_later tySame₁ step₂
      split
      · exact full.pure tySame₂
      · refine full.bind_agrees (full.companion feature) ?_
        intro world₃ companion step₃
        cases companion with
        | none => exact full.rootMetatype
        | some companion =>
          have step₂₃ := full.later_trans step₂ step₃
          refine full.bind (full.optionMapM (full.option_later sameOuter step₂₃) ?_) ?_
          · rintro around around' rfl rfl aroundSame
            have bound := smaller around (by simp [Node.children])
            have bound' := smaller' around' (by simp [Node.children])
            exact ih depth' aroundSame (by omega) (by omega)
          intro world₄ outer outer' step₄ outerSame
          exact full.applied companion false
            (.cons (full.same_later tySame₂ (full.later_trans step₃ step₄))
              (full.list_later sameArgs (full.later_trans step₂₃ step₄))) outerSame
    | error => exact full.pure (full.same_error world₁)
    | void => exact full.pure tySame₁
    | undefined => exact full.pure tySame₁

/-- Corresponding types have corresponding metatypes. -/
theorem metatype (tySame : K.same world ty ty') :
    K.couples world (metatype ty) (metatype ty') K.same :=
  full.metatypeWithin _ _ tySame (Nat.lt_succ_self _) (Nat.lt_succ_self _)

end Full

end FeatureTypes.Coupling

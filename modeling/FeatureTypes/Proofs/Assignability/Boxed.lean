import FeatureTypes.Proofs.Assignability.Transitivity
import FeatureTypes.Proofs.Meaning.Constraint
import FeatureTypes.Proofs.Meaning.Sturdy

/-!
# Constraints are at least as loose as boxed assignability

A constraint check and a check whether one reference may be assigned to another climb the
same ancestors.  The types on the way may differ, but as long as all of them are sturdy they
apply the same feature.
-/

namespace FeatureTypes

variable {feature : FeatureId}

/-- On its way up, the check for references looks at `boxed` where the check of a constraint
looks at `actual`. -/
inductive Ty.Boxes : (actual boxed : Ty) → Prop
  | void : Boxes .void .void
  | formal (id : FormalId) (boxed : Bool) : Boxes (.formal id boxed) (.formal id true)
  | applied {feature : FeatureId} {args args' : List Ty} {outer outer' : Option Ty}
      {isRef isRef' isThis isThis' : Bool} :
      Boxes (.applied feature args outer isRef isThis)
        (.applied feature args' outer' isRef' isThis')

/-- The types that a declaration mentions. -/
def Feature.mentioned (declared : Feature) : List TypeId :=
  declared.formals.map (·.constraint) ++
    declared.parents.flatMap (fun parent => parent.ty :: parent.actuals) ++
      declared.summands.getD []

namespace Signature

variable {signature : Signature}

theorem Sturdy.boxes {ty : Ty} (sturdy : signature.Sturdy ty) : ty.Boxes ty.asRef := by
  cases ty with
  | void => exact .void
  | formal id boxed => exact .formal id boxed
  | applied feature args outer isRef isThis => exact .applied
  | error | undefined => exact (sturdy _ (Ty.self_mem_parts _)).elim

theorem Fails.looks {constraint actual : Ty} (fails : signature.Fails constraint actual) :
    ¬ constraint.TriviallyMeets actual := by
  cases fails <;> assumption

theorem sameShape_of_sturdy {args args' : List Ty} {outer outer' : Option Ty}
    {isRef isRef' isThis isThis' : Bool}
    (sturdy : signature.Sturdy (.applied feature args outer isRef isThis))
    (sturdy' : signature.Sturdy (.applied feature args' outer' isRef' isThis')) :
    (Ty.applied feature args outer isRef isThis).SameShape
      (.applied feature args' outer' isRef' isThis') := by
  refine ⟨rfl, Option.some.inj ?_⟩
  exact (sturdy_applied_iff.mp sturdy).1.fits.symm.trans (sturdy_applied_iff.mp sturdy').1.fits

namespace Firm

variable (firm : signature.Firm)

include firm

theorem dropThisFormals_eq {ty : Ty} (sturdy : signature.Sturdy ty) :
    signature.dropThisFormals ty = some ty := by
  apply Keeps.dropThisFormals
  intro id boxed occurs
  have declares : signature.DeclaresFormal id := sturdy _ occurs
  obtain ⟨outline, declared, _⟩ := declares.exists_outline
  by_cases first : id.index = 0
  · simp [dropThisFormal, first, declared, firm.no_companion id.feature outline declared]
  · simp [dropThisFormal, first]

theorem boxes_ancestor {outline : Outline} (declared : signature.feature feature = some outline)
    {parent : ParentOutline} (member : parent ∈ outline.parents) {actual boxed seen ancestor : Ty}
    (actualSturdy : signature.Sturdy actual) (boxedSturdy : signature.Sturdy boxed)
    (seenEq : signature.substituteVia actual parent.ty = some seen)
    (ancestorEq : signature.ancestorSeenFrom boxed parent.ty = some ancestor) :
    seen.Boxes ancestor ∧ signature.Sturdy seen ∧ signature.Sturdy ancestor := by
  have parentSturdy := firm.parent_sturdy feature outline declared parent member
  obtain ⟨outer, isRef, spelled⟩ := firm.parent_spelled feature outline declared parent member
  have seenReshapes := firm.substituteVia_sturdy actualSturdy parentSturdy seenEq
  obtain ⟨viewed, viewedEq, ancestorEq⟩ := Option.bind_eq_some_iff.mp ancestorEq
  obtain ⟨replaced, replacedEq, ancestorEq⟩ := Option.bind_eq_some_iff.mp ancestorEq
  obtain rfl := Option.some.inj ancestorEq
  have viewedReshapes := firm.substituteVia_sturdy boxedSturdy parentSturdy viewedEq
  obtain ⟨_, _, rfl⟩ := seenReshapes.root_kept _ _ _ _ _ spelled
  obtain ⟨_, _, rfl⟩ := viewedReshapes.root_kept _ _ _ _ _ spelled
  have replacedSturdy := replaceThis_sturdy viewedReshapes.sturdy boxedSturdy replacedEq
  obtain ⟨_, _, rfl⟩ := replaceThis_applied replacedEq
  exact ⟨.applied, seenReshapes.sturdy, replacedSturdy.asRef⟩

theorem not_fails {args : List Ty} {outer : Option Ty} {isRef isThis : Bool} {actual boxed : Ty}
    (constraintSturdy : signature.Sturdy (.applied feature args outer isRef isThis))
    (takes : signature.Takes (.applied feature args outer true isThis) boxed)
    (boxes : actual.Boxes boxed) (actualSturdy : signature.Sturdy actual)
    (boxedSturdy : signature.Sturdy boxed) :
    ¬ signature.Fails (.applied feature args outer isRef isThis) actual := by
  generalize isTarget : Ty.applied feature args outer true isThis = target at takes
  have targetSturdy : signature.Sturdy target := isTarget ▸ constraintSturdy.asRef
  -- Each step in which the boxed type is taken is one that a failing search has taken, too.
  induction takes generalizing actual with
  | atOnce targetPlain actualPlain takes =>
    obtain rfl := Option.some.inj ((firm.dropThisFormals_eq targetSturdy).symm.trans targetPlain)
    obtain rfl := Option.some.inj ((firm.dropThisFormals_eq boxedSturdy).symm.trans actualPlain)
    rw [Ty.takesAtOnce, targetSturdy.isAbsorbing_eq, boxedSturdy.isAbsorbing_eq] at takes
    intro fails
    cases boxes with
    | void => exact fails.looks (Or.inr (Or.inr (Or.inr rfl)))
    | formal id boxed => simp [← isTarget] at takes
    | applied =>
      simp only [← isTarget, Ty.applied.injEq, reduceCtorEq, decide_false, Bool.or_false,
        decide_eq_true_eq] at takes
      obtain ⟨rfl, _⟩ := takes
      cases fails with
      | formal _ isFormal => cases isFormal
      | applied _ different _ _ _ =>
        exact different (sameShape_of_sturdy constraintSturdy actualSturdy)
  | above targetPlain actualPlain counts isAbove takes ih =>
    obtain rfl := Option.some.inj ((firm.dropThisFormals_eq targetSturdy).symm.trans targetPlain)
    obtain rfl := Option.some.inj ((firm.dropThisFormals_eq boxedSturdy).symm.trans actualPlain)
    intro fails
    cases isAbove with
    | constraint declared proper =>
      cases boxes with
      | formal id boxed =>
        have boundSturdy := firm.constraint?_sturdy declared
        cases fails with
        | formal _ isFormal => cases isFormal
        | unbound _ unbound => exact proper (congrArg Ty.asRef (unbound _ declared))
        | bound _ declared' above =>
          obtain rfl := Option.some.inj (Option.some.inj (declared.symm.trans declared'))
          exact ih boundSturdy.boxes boundSturdy boundSturdy.asRef isTarget
            targetSturdy above
    | parent declared member ancestorEq =>
      cases boxes with
      | applied =>
        cases fails with
        | formal _ isFormal => cases isFormal
        | applied _ _ declared' views above =>
          obtain rfl := Option.some.inj (declared.symm.trans declared')
          obtain ⟨boxes, seenSturdy, ancestorSturdy⟩ := firm.boxes_ancestor declared member
            actualSturdy boxedSturdy (views _ member) ancestorEq
          exact ih boxes seenSturdy ancestorSturdy isTarget targetSturdy
            (above _ member)
  | summand targetPlain _ byValue _ _ _ _ =>
    obtain rfl := Option.some.inj ((firm.dropThisFormals_eq targetSturdy).symm.trans targetPlain)
    -- Only choices by value have summands, and the target is boxed.
    simp [← isTarget, Ty.isRef] at byValue

end Firm

end Signature

namespace Checker

/-! ## Answers of checkers -/

/-- Asked whether a type meets the constraint, at some time while the features stay as they are,
the checker answers `answer`. -/
def Judges (start : Checker) (constraint actual : Ty) (answer : Bool) : Prop :=
  ∃ checker constraintId actualId after, start.Continues checker ∧
    checker.types.Denotes constraintId constraint ∧ checker.types.Denotes actualId actual ∧
      (meetsConstraint constraintId actualId).run checker = .ok answer after

theorem Judges.fails {start : Checker} (faithful : start.Faithful) {constraint actual : Ty}
    (judges : start.Judges constraint actual false) : start.signature.Fails constraint actual := by
  obtain ⟨checker, constraintId, actualId, after, continues, constraintDenotes, actualDenotes,
    run⟩ := judges
  have finds : Finds start.signature checker (meetsConstraint constraintId actualId) fun _ holds =>
      holds = false → start.signature.Fails constraint actual :=
    .look (EStateM.run_get checker) (finds_meetsConstraintWithin _ (continues.obeys faithful)
      constraintDenotes actualDenotes)
  exact (finds false after run).2.2 rfl

theorem judges_of_run {start : Checker} {constraint actual : TypeId} {answer : Bool}
    (held : ∀ ty ∈ [constraint, actual], start.types.Holds ty)
    (answers : (match (meetsConstraint constraint actual).run start with
      | .ok found _ => decide (found = answer)
      | .error _ _ => false) = true) :
    start.Judges (start.types.tree constraint) (start.types.tree actual) answer := by
  simp only [List.forall_mem_cons] at held
  split at answers
  next found after run =>
    obtain rfl := decide_eq_true_eq.mp answers
    exact ⟨start, constraint, actual, after, .refl, ⟨held.1, rfl⟩, ⟨held.2.1, rfl⟩, run⟩
  next => cases answers

theorem Reachable.firm_signature {start : Checker} (reachable : start.Reachable)
    (closed : start.features.FormalsClosed)
    (plain : ∀ id declared, start.features.get id = .ok declared → declared.isCompanion = false)
    (constraintsSturdy : ∀ id declared, start.features.get id = .ok declared →
      ∀ formal ∈ declared.formals, start.signature.Sturdy (start.types.tree formal.constraint))
    (parentsSturdy : ∀ id declared, start.features.get id = .ok declared →
      ∀ parent ∈ declared.parents, start.signature.Sturdy (start.types.tree parent.ty)) :
    start.signature.Firm := by
  refine ⟨?_, ?_, ?_, ?_, ?_⟩
  all_goals
    intro id outline isOutline
    obtain ⟨declared, found, rfl⟩ := signature_feature_eq_some_iff.mp isOutline
  · exact List.forall_mem_map.mpr (closed id declared found)
  · simpa [Feature.isCompanion, Feature.outline] using plain id declared found
  · exact List.forall_mem_map.mpr (constraintsSturdy id declared found)
  · exact List.forall_mem_map.mpr (parentsSturdy id declared found)
  · refine List.forall_mem_map.mpr fun parent member => ?_
    obtain ⟨held, ancestor, outer, _, node, _⟩ :=
      (reachable.built.orderly.each id declared found).parent_spelled parent member
    have coherent := reachable.sound.toWellFormed.types_canonical.toCoherent
    refine ⟨outer.map start.types.tree, ancestor.isRef, ?_⟩
    rw [TypeStore.tree_eq coherent held, node]
    rfl

/-- What a reference to a type may be assigned to, with the constraint held through a reference,
meets the constraint.  The two questions are put to the checker at any time after its memo tables
were empty, while its features stay as they are. -/
theorem meetsConstraint_of_isAssignable_asRef
    (start : Checker) (reachable : start.Reachable)
    (byOwnerEmpty : start.byOwner.entries.isEmpty = true)
    (viaTypeEmpty : start.viaType.entries.isEmpty = true)
    (closed : start.features.FormalsClosed)
    (plain : ∀ id declared, start.features.get id = .ok declared → declared.isCompanion = false)
    (constraintsSturdy : ∀ id declared, start.features.get id = .ok declared →
      ∀ formal ∈ declared.formals, start.signature.Sturdy (start.types.tree formal.constraint))
    (parentsSturdy : ∀ id declared, start.features.get id = .ok declared →
      ∀ parent ∈ declared.parents, start.signature.Sturdy (start.types.tree parent.ty))
    (constraint actual : Ty) (applies : constraint.appliedFeature? ≠ none)
    (constraintSturdy : start.signature.Sturdy constraint)
    (actualSturdy : start.signature.Sturdy actual)
    (takes : start.Decides constraint.asRef actual.asRef true) {answer : Bool}
    (completes : start.Judges constraint actual answer) : answer = true := by
  have faithful := reachable.sound.toWellFormed.faithful_of_empty byOwnerEmpty viaTypeEmpty
  have firm := reachable.firm_signature closed plain constraintsSturdy parentsSturdy
  cases answer with
  | true => rfl
  | false =>
    cases constraint with
    | applied feature args outer isRef isThis =>
      exact absurd (completes.fails faithful) (firm.not_fails constraintSturdy
        ((takes.iff_takes faithful).mp rfl) actualSturdy.boxes actualSturdy actualSturdy.asRef)
    | _ => exact absurd rfl applies

/-- An item is a list of the shell around it, whatever that is. -/
theorem meetsConstraint_of_isAssignable_asRef_item :
    let start := afterAll [.declare (.feature "any" none true), .construct (.instantiate ⟨1⟩ []),
      .declare (.feature "list" none false), .declare (.formal ⟨2⟩ "T" ⟨3⟩ false {}),
      .declare (.feature "shell" none false), .declare (.formal ⟨3⟩ "S" ⟨3⟩ false {}),
      .construct (.selfType ⟨3⟩), .construct (.asThis ⟨6⟩),
      .declare (.feature "item" (some ⟨3⟩) false), .declare (.parent ⟨4⟩ ⟨2⟩ [⟨7⟩]),
      .construct (.selfType ⟨4⟩), .construct (.instantiate ⟨2⟩ [⟨6⟩]), .construct (.asRef ⟨9⟩),
      .construct (.asRef ⟨10⟩)] {}
    start.features.FormalsClosed ∧
      start.Decides (start.types.tree ⟨10⟩).asRef (start.types.tree ⟨9⟩).asRef true ∧
      ∃ answer, start.Judges (start.types.tree ⟨10⟩) (start.types.tree ⟨9⟩) answer ∧
        answer = true := by
  intro start
  have reachable : start.Reachable := (Reachable.initial {} {}).steps (by decide +kernel)
  have closed : start.features.FormalsClosed := FeatureTable.forall_declared (by decide +kernel)
  have plain : ∀ id declared, start.features.get id = .ok declared →
      declared.isCompanion = false := FeatureTable.forall_declared (by decide +kernel)
  have constraintsSturdy : ∀ id declared, start.features.get id = .ok declared →
      ∀ formal ∈ declared.formals, start.signature.Sturdy (start.types.tree formal.constraint) :=
    FeatureTable.forall_declared (by decide +kernel)
  have parentsSturdy : ∀ id declared, start.features.get id = .ok declared →
      ∀ parent ∈ declared.parents, start.signature.Sturdy (start.types.tree parent.ty) :=
    FeatureTable.forall_declared (by decide +kernel)
  have boxedList : start.types.tree ⟨12⟩ = (start.types.tree ⟨10⟩).asRef := by decide +kernel
  have boxedItem : start.types.tree ⟨11⟩ = (start.types.tree ⟨9⟩).asRef := by decide +kernel
  have takes : start.Decides (start.types.tree ⟨12⟩) (start.types.tree ⟨11⟩) true :=
    decides_of_run (by decide +kernel) (by decide +kernel)
  have completes : start.Judges (start.types.tree ⟨10⟩) (start.types.tree ⟨9⟩) true :=
    judges_of_run (by decide +kernel) (by decide +kernel)
  rw [boxedList, boxedItem] at takes
  refine ⟨closed, takes, true, completes, ?_⟩
  exact meetsConstraint_of_isAssignable_asRef start reachable (by decide +kernel)
    (by decide +kernel) closed plain constraintsSturdy parentsSturdy _ _ (by decide +kernel)
    (by decide +kernel) (by decide +kernel) takes completes

/-- With a dangling formal among the arguments of a parent, seeing a type from elsewhere may end
in one that cannot be typed, and such a type takes everything.  Here the check for references
gets there, since it replaces enclosing instances on its way; the check of the constraint does
not. -/
theorem isAssignable_asRef_of_dangling :
    let start := afterAll [.declare (.feature "any" none true), .construct (.instantiate ⟨1⟩ []),
      .declare (.feature "x" none false), .declare (.formal ⟨2⟩ "X" ⟨3⟩ false {}),
      .declare (.feature "o" none false), .construct (.formal ⟨⟨3⟩, 7⟩),
      .declare (.parent ⟨3⟩ ⟨2⟩ [⟨5⟩]), .declare (.feature "y" none false),
      .declare (.feature "q" none false), .declare (.formal ⟨5⟩ "Q" ⟨3⟩ false {}),
      .declare (.feature "h" (some ⟨3⟩) false), .declare (.formal ⟨6⟩ "H" ⟨3⟩ false {}),
      .declare (.parent ⟨6⟩ ⟨5⟩ [⟨8⟩]), .declare (.feature "f" none false),
      .declare (.formal ⟨7⟩ "F" ⟨3⟩ false {}), .declare (.parent ⟨7⟩ ⟨4⟩ []),
      .construct (.asThis ⟨11⟩), .declare (.parent ⟨7⟩ ⟨6⟩ [⟨12⟩]),
      .declare (.feature "t" none false), .construct (.instantiate ⟨7⟩ [⟨4⟩]),
      .construct (.instantiate ⟨8⟩ []), .construct (.asRef ⟨15⟩), .construct (.asRef ⟨16⟩)]
      { options := { strict := false } }
    start.Reachable ∧ start.byOwner.entries.isEmpty = true ∧
      start.viaType.entries.isEmpty = true ∧ start.features.FormalsClosed ∧
      (∀ id declared, start.features.get id = .ok declared → declared.isCompanion = false) ∧
      (∀ id declared, start.features.get id = .ok declared → ∀ ty ∈ declared.mentioned,
        ∀ part ∈ (start.types.tree ty).parts,
          part.isFormal = true ∨ start.signature.SturdyRoot part) ∧
      (start.types.tree ⟨16⟩).appliedFeature? ≠ none ∧
      start.signature.Sturdy (start.types.tree ⟨16⟩) ∧
      start.signature.Sturdy (start.types.tree ⟨15⟩) ∧
      start.Decides (start.types.tree ⟨16⟩).asRef (start.types.tree ⟨15⟩).asRef true ∧
      start.Judges (start.types.tree ⟨16⟩) (start.types.tree ⟨15⟩) false := by
  intro start
  have reachable : start.Reachable := (Reachable.initial _ _).steps (by decide +kernel)
  have boxedTarget : start.types.tree ⟨18⟩ = (start.types.tree ⟨16⟩).asRef := by decide +kernel
  have boxedActual : start.types.tree ⟨17⟩ = (start.types.tree ⟨15⟩).asRef := by decide +kernel
  have takes : start.Decides (start.types.tree ⟨18⟩) (start.types.tree ⟨17⟩) true :=
    decides_of_run (by decide +kernel) (by decide +kernel)
  rw [boxedTarget, boxedActual] at takes
  refine ⟨reachable, by decide +kernel, by decide +kernel,
    FeatureTable.forall_declared (by decide +kernel),
    FeatureTable.forall_declared (by decide +kernel),
    FeatureTable.forall_declared (by decide +kernel), by decide +kernel, by decide +kernel,
    by decide +kernel, takes, judges_of_run (by decide +kernel) (by decide +kernel)⟩

end Checker

end FeatureTypes

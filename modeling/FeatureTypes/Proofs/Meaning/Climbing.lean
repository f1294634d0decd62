import FeatureTypes.Proofs.Assignability.Transitivity
import FeatureTypes.Proofs.Meaning.Sturdy

/-!
# Climbing to ancestors

Whoever climbs follows the inheritance graph, unless the error type is met.
-/

namespace FeatureTypes

variable {feature : FeatureId} {outer : Option Ty} {args : List Ty} {target result : Ty}
  {isRef : Bool}

namespace Ty

/-- An applied feature stays applied, in the same way, or becomes the error type, which stays
what it is. -/
def RootOrError : (ty result : Ty) → Prop
  | .applied feature _ _ isRef isThis, result =>
    result = .error ∨ ∃ args outer, result = .applied feature args outer isRef isThis
  | .error, result => result = .error
  | _, _ => True

theorem RootOrError.refl (ty : Ty) : ty.RootOrError ty := by
  cases ty with
  | applied feature args outer isRef isThis => exact Or.inr ⟨args, outer, rfl⟩
  | error => rfl
  | _ => trivial

theorem RootOrError.trans {first second third : Ty} (kept : first.RootOrError second)
    (kept' : second.RootOrError third) : first.RootOrError third := by
  cases first with
  | applied feature args outer isRef isThis =>
    rcases kept with rfl | ⟨args', outer', rfl⟩
    · exact Or.inl kept'
    · exact kept'
  | error =>
    obtain rfl : second = .error := kept
    exact kept'
  | _ => trivial

theorem rootOrError_error (ty : Ty) : ty.RootOrError .error := by
  cases ty with
  | applied => exact Or.inl rfl
  | error => rfl
  | _ => trivial

end Ty

namespace Signature

variable {signature : Signature}

/-! ## Roots -/

theorem rebuild_rootOrError (feature : FeatureId) (args newArgs : List Ty)
    (outer newOuter : Option Ty) (isRef isThis : Bool) :
    (Ty.applied feature args outer isRef isThis).RootOrError
      (rebuild (.applied feature args outer isRef isThis) newArgs newOuter) := by
  rw [rebuild]
  split
  · exact .refl _
  · split
    · exact Or.inl rfl
    · exact Or.inr ⟨newArgs, newOuter, rfl⟩

section

variable {substitute : FeatureId → List Ty → Ty → Option Ty}
  (keeps : ∀ owner actuals target result, substitute owner actuals target = some result →
    target.RootOrError result)

include keeps

theorem foldlM_rootOrError {parents : List ParentOutline}
    (folded : parents.foldlM
      (fun ty parent => substitute parent.ancestor parent.actuals ty) target = some result) :
    target.RootOrError result := by
  induction parents generalizing target with
  | nil =>
    obtain rfl := Option.some.inj folded
    exact .refl _
  | cons parent rest ih =>
    rw [List.foldlM_cons] at folded
    obtain ⟨middle, middleEq, folded⟩ := Option.bind_eq_some_iff.mp folded
    exact (keeps _ _ _ _ middleEq).trans (ih folded)

theorem substituteStep_rootOrError {owner : FeatureId} {actuals : List Ty}
    (substituted : signature.substituteStep substitute owner actuals target = some result) :
    target.RootOrError result := by
  obtain ⟨outline, _, substituted⟩ := Option.bind_eq_some_iff.mp substituted
  obtain ⟨ty, folded, substituted⟩ := Option.bind_eq_some_iff.mp substituted
  refine (foldlM_rootOrError keeps folded).trans ?_
  cases ty with
  | formal id boxed => trivial
  | applied feature args outer isRef isThis =>
    obtain ⟨_, _, substituted⟩ := Option.bind_eq_some_iff.mp substituted
    obtain ⟨newOuter, _, substituted⟩ := Option.bind_eq_some_iff.mp substituted
    obtain ⟨newArgs, _, substituted⟩ := Option.bind_eq_some_iff.mp substituted
    obtain rfl := Option.some.inj substituted
    exact rebuild_rootOrError feature args newArgs outer newOuter isRef isThis
  | _ =>
    obtain rfl := Option.some.inj substituted
    exact .refl _

end

/-- A substitution keeps the applied feature or gives the error type. -/
theorem substitute_rootOrError {owner : FeatureId} {actuals : List Ty}
    (substituted : signature.substitute owner actuals target = some result) :
    target.RootOrError result := by
  refine solution_induction (motive := fun input result => input.2.2.RootOrError result) ?_
    substituted
  rintro call keeps ⟨owner, actuals, target⟩ result settled
  dsimp only at settled
  split at settled
  next =>
    obtain rfl := Option.some.inj settled
    exact .refl _
  next =>
    refine substituteStep_rootOrError ?_ settled
    exact fun owner actuals target result => keeps (owner, actuals, target) result

theorem substituteVia_rootOrError {source : Ty}
    (substituted : signature.substituteVia source target = some result) :
    target.RootOrError result := by
  refine solution_induction (motive := fun input result => input.2.RootOrError result) ?_
    substituted
  rintro view keeps ⟨source, target⟩ result settled
  dsimp only at settled
  split at settled
  next =>
    obtain rfl := Option.some.inj settled
    exact .refl _
  next =>
    cases source with
    | formal id boxed =>
      obtain ⟨constraint?, _, settled⟩ := Option.bind_eq_some_iff.mp settled
      cases constraint? with
      | none =>
        obtain rfl := Option.some.inj settled
        exact .refl _
      | some constraint =>
        dsimp only at settled
        split at settled
        · obtain rfl := Option.some.inj settled
          exact .refl _
        · exact keeps (constraint, target) result settled
    | applied id args outer isRef isThis =>
      obtain ⟨middle, middleEq, settled⟩ := Option.bind_eq_some_iff.mp settled
      refine (substitute_rootOrError middleEq).trans ?_
      cases outer with
      | none =>
        obtain rfl := Option.some.inj settled
        exact .refl _
      | some around => exact keeps (around, middle) result settled
    | error =>
      obtain rfl := Option.some.inj settled
      exact Ty.rootOrError_error target
    | _ =>
      obtain rfl := Option.some.inj settled
      exact .refl _

theorem ancestorSeenFrom_applied {actual : Ty}
    (seen : signature.ancestorSeenFrom actual (.applied feature args outer isRef false) =
      some result) :
    result = .error ∨ ∃ args' outer', result = .applied feature args' outer' true false := by
  obtain ⟨viewed, viewedEq, seen⟩ := Option.bind_eq_some_iff.mp seen
  obtain ⟨replaced, replacedEq, seen⟩ := Option.bind_eq_some_iff.mp seen
  obtain rfl := Option.some.inj seen
  rcases substituteVia_rootOrError viewedEq with rfl | ⟨args', outer', rfl⟩
  · rw [signature.replaceThis_of_idle rfl] at replacedEq
    obtain rfl := Option.some.inj replacedEq
    exact Or.inl rfl
  · obtain ⟨args'', outer'', rfl⟩ := replaceThis_applied replacedEq
    exact Or.inr ⟨args'', outer'', rfl⟩

/-! ## Ancestors -/

/-- The feature `heir` was declared with the parent `ancestor`. -/
def HasParent (signature : Signature) (heir ancestor : FeatureId) : Prop :=
  ∃ outline, signature.feature heir = some outline ∧
    ∃ parent ∈ outline.parents, parent.ancestor = ancestor

/-- The signature of a checker has the parents that its features declare. -/
theorem hasParent_iff {checker : Checker} {heir ancestor : FeatureId} :
    checker.signature.HasParent heir ancestor ↔ checker.features.HasParent heir ancestor := by
  simp only [HasParent, FeatureTable.HasParent, Checker.signature]
  cases checker.features.get heir <;> simp [Except.toOption, Feature.outline]

/-- The type of every parent applies the parent. -/
def ParentsSpelled (signature : Signature) : Prop :=
  ∀ id outline, signature.feature id = some outline → ∀ parent ∈ outline.parents,
    ∃ args outer isRef, parent.ty = .applied parent.ancestor args outer isRef false

/-- From the first type one comes to the second one by going up.  Formals for the type at hand
are dropped on the way. -/
def Climbs (signature : Signature) : (ty top : Ty) → Prop :=
  Relation.ReflTransGen fun ty ancestor => ∃ plain, signature.dropThisFormals ty = some plain ∧
    signature.Above plain ancestor

section

variable (spelled : signature.ParentsSpelled)

include spelled

theorem Above.parent_or_error {isThis : Bool} {ancestor : Ty}
    (isAbove : signature.Above (.applied feature args outer isRef isThis) ancestor) :
    ancestor = .error ∨ ∃ parent args' outer', signature.HasParent feature parent ∧
      ancestor = .applied parent args' outer' true false := by
  cases isAbove with
  | @parent _ _ _ _ _ outline parent _ declared member seen =>
    obtain ⟨args', outer', isRef', tyEq⟩ := spelled feature outline declared parent member
    rw [tyEq] at seen
    refine (ancestorSeenFrom_applied seen).imp_right ?_
    rintro ⟨args'', outer'', rfl⟩
    exact ⟨parent.ancestor, args'', outer'', ⟨outline, declared, parent, member, rfl⟩, rfl⟩

/-- An applied feature is taken by its ancestors only, or an error is met above it. -/
theorem Takes.inherits_or_climbs {actual : Ty} (takes : signature.Takes target actual)
    {heir : FeatureId} {args' : List Ty} {outer' : Option Ty} {isThis isThis' : Bool}
    (targetPlain : signature.dropThisFormals target = some (.applied feature args outer true
      isThis))
    (actualPlain : signature.dropThisFormals actual =
      some (.applied heir args' outer' isRef isThis')) :
    Relation.ReflTransGen signature.HasParent heir feature ∨ signature.Climbs actual .error := by
  induction takes generalizing args args' outer outer' isThis isRef isThis' heir with
  | atOnce targetPlain' actualPlain' takes =>
    obtain rfl := Option.some.inj (targetPlain.symm.trans targetPlain')
    obtain rfl := Option.some.inj (actualPlain.symm.trans actualPlain')
    obtain ⟨rfl, _⟩ : feature = heir ∧ _ := by
      simpa [Ty.takesAtOnce, Ty.isAbsorbing] using takes
    exact Or.inl .refl
  | above targetPlain' actualPlain' counts isAbove takes ih =>
    obtain rfl := Option.some.inj (targetPlain.symm.trans targetPlain')
    obtain rfl := Option.some.inj (actualPlain.symm.trans actualPlain')
    have climbs : signature.Climbs _ _ := .single ⟨_, actualPlain, isAbove⟩
    rcases isAbove.parent_or_error spelled with rfl | ⟨parent, _, _, hasParent, rfl⟩
    · exact Or.inr climbs
    obtain ⟨_, _, targetPlain', ancestorPlain⟩ := takes.plain
    obtain ⟨_, _, _, _, rfl⟩ := dropThisFormals_applied targetPlain'
    obtain ⟨_, _, _, _, rfl⟩ := dropThisFormals_applied ancestorPlain
    exact (ih targetPlain' ancestorPlain).imp (.head hasParent) climbs.trans
  | summand targetPlain' _ byValue =>
    obtain rfl := Option.some.inj (targetPlain.symm.trans targetPlain')
    simp [Ty.isRef] at byValue

theorem Above.inherits_or_climbs {actual ancestor : Ty} {heir : FeatureId} {args' : List Ty}
    {outer' : Option Ty} {isThis isThis' : Bool}
    (actualPlain : signature.dropThisFormals actual =
      some (.applied heir args' outer' isRef isThis'))
    (isAbove : signature.Above (.applied heir args' outer' isRef isThis') ancestor)
    (takes : signature.Takes (.applied feature args outer true isThis) ancestor) :
    Relation.TransGen signature.HasParent heir feature ∨ signature.Climbs actual .error := by
  have climbs : signature.Climbs actual ancestor := .single ⟨_, actualPlain, isAbove⟩
  rcases isAbove.parent_or_error spelled with rfl | ⟨parent, _, _, hasParent, rfl⟩
  · exact Or.inr climbs
  obtain ⟨_, _, targetPlain, ancestorPlain⟩ := takes.plain
  obtain ⟨_, _, _, _, rfl⟩ := dropThisFormals_applied targetPlain
  obtain ⟨_, _, _, _, rfl⟩ := dropThisFormals_applied ancestorPlain
  exact (takes.inherits_or_climbs spelled targetPlain ancestorPlain).imp
    (.head' hasParent) climbs.trans

end

end Signature

end FeatureTypes

import Mathlib.Order.Filter.Finite
import FeatureTypes.Proofs.Meaning.Climbing
import FeatureTypes.Proofs.Substitution.Ending

/-!
# Constraint checks that come to an end

To see a type from another one, the checker goes from a formal to its constraint and from an
applied feature to its outer type.
-/

namespace FeatureTypes

open Filter

/-! ## Where views lead -/

namespace Signature

variable {signature : Signature}

/-- Views from `source` go on from `next`. -/
def Sees (signature : Signature) (source next : Ty) : Prop :=
  match source with
  | .formal id _ => signature.constraint? id = some (some next) ∧ next ≠ source
  | .applied _ _ outer _ _ => outer = some next
  | _ => False

/-- Views from the type lead to no endless chain. -/
def Viewable (signature : Signature) : Ty → Prop :=
  Acc fun next source => signature.Sees source next

theorem viewable_of_anchored {ty : Ty} (anchored : ty.Anchored) : signature.Viewable ty := by
  induction anchored with
  | error => exact .intro _ fun _ sees => sees.elim
  | applied _ ih => exact .intro _ ih

end Signature

namespace Checker

variable {start checker : Checker}

/-- The types from which a type is seen after it has been seen from `source`: the constraint of
the formal that `source` is, or the outer type of `source`. -/
def viewed (checker : Checker) (source : TypeId) : List TypeId :=
  match checker.types.node source with
  | .formal id _ =>
    match checker.features.formal? id with
    | .ok (some formal) => [formal.constraint].filter (· ≠ source)
    | _ => []
  | .applied _ _ outer _ _ => outer.toList
  | _ => []

/-- What has been seen from `source` is seen from `next` after that. -/
def Views (checker : Checker) (source next : TypeId) : Prop :=
  next ∈ checker.viewed source

section

variable {source next : TypeId}

theorem views_cases (views : checker.Views source next) :
    (∃ id boxed formal, checker.types.node source = .formal id boxed ∧
      checker.features.formal? id = .ok (some formal) ∧ next = formal.constraint) ∨
    ∃ id args isRef isThis,
      checker.types.node source = .applied id args (some next) isRef isThis := by
  unfold Views viewed at views
  split at views
  next id boxed node =>
    split at views
    next formal declared =>
      have isConstraint := List.mem_singleton.mp (List.mem_filter.mp views).1
      exact .inl ⟨id, boxed, formal, node, declared, isConstraint⟩
    next => cases views
  next id args outer isRef isThis node =>
    rw [Option.mem_toList.mp views] at node
    exact .inr ⟨id, args, isRef, isThis, node⟩
  next => cases views

theorem Views.held (views : checker.Views source next) (wellFormed : checker.WellFormed)
    (held : checker.types.Holds source) : checker.types.Holds next := by
  rcases views_cases views with ⟨id, _, formal, _, declared, rfl⟩ | ⟨_, _, _, _, node⟩
  · obtain ⟨feature, found, present⟩ := except_bind_eq_ok declared
    exact (wellFormed.features_wellFormed _ feature found).constraint_held _
      (List.mem_of_getElem? (Except.ok.inj present))
  · exact wellFormed.types_canonical.toCoherent.child_holds held (by simp [node, Node.children])

theorem exists_views_of_sees (wellFormed : checker.WellFormed) (held : checker.types.Holds source)
    {next : Ty} (sees : checker.completed.Sees (checker.types.tree source) next) :
    ∃ id, checker.Views source id ∧ next = checker.types.tree id := by
  have treeEq := TypeStore.tree_eq wellFormed.types_canonical.toCoherent held
  cases node : checker.types.node source with
  | formal id boxed =>
    rw [treeEq, node] at sees
    obtain ⟨isConstraint, other⟩ := sees
    simp only [Signature.constraint?, Signature.formal?, completed_feature, Feature.outline,
      List.getElem?_map, Option.bind_eq_bind, Option.bind_some, Option.map_map,
      Option.pure_def, Option.some.injEq, Option.map_eq_some_iff] at isConstraint
    obtain ⟨formal, present, rfl⟩ := isConstraint
    have declared : checker.features.formal? id = .ok (some formal) := by
      rw [FeatureTable.formal?, FeatureTable.get_entry_of_getElem? present]
      exact congrArg Except.ok present
    refine ⟨formal.constraint, ?_, rfl⟩
    have otherId : formal.constraint ≠ source := by
      rintro rfl
      rw [node] at treeEq
      exact other treeEq
    simp [Views, viewed, node, declared, otherId]
  | applied id args outer isRef isThis =>
    rw [treeEq, node] at sees
    obtain ⟨around, rfl, rfl⟩ := Option.map_eq_some_iff.mp sees
    exact ⟨around, by simp [Views, viewed, node], rfl⟩
  | _ =>
    rw [treeEq, node] at sees
    exact sees.elim

/-- Where the views from a number come to an end, so do those from its tree. -/
theorem viewable_tree (wellFormed : checker.WellFormed)
    (accessible : Acc (fun next source => checker.Views source next) source)
    (held : checker.types.Holds source) :
    checker.completed.Viewable (checker.types.tree source) := by
  induction accessible with
  | intro source _ ih =>
    refine .intro _ fun next sees => ?_
    obtain ⟨id, views, rfl⟩ := exists_views_of_sees wellFormed held sees
    exact ih id views (views.held wellFormed held)

end

/-! ## Views that end -/

theorem eventually_substituteWithin {signature : Signature} {owner : FeatureId} {actuals : List Ty}
    {target result : Ty} (settled : signature.substitute owner actuals target = some result) :
    ∀ᶠ depth in atTop, signature.substituteWithin .lax depth owner actuals target =
      some result := by
  have finitary := signature.finitary_equationUnder .lax
  have isSolution :
      solution (signature.equationUnder .lax) (owner, actuals, target) = some result := by
    rw [← settled, Signature.substitute]
    congr 1
    funext call input
    obtain ⟨owner, actuals, target⟩ := input
    exact signature.equationUnder_lax call owner actuals target
  obtain ⟨enough, settled⟩ := (solution_eq_some_iff finitary).mp isSolution
  filter_upwards [eventually_ge_atTop enough] with depth deep
  exact unfolding_of_le finitary deep settled

section

variable (wellFormed : start.WellFormed) (stratified : start.features.Stratified start.types)

include wellFormed stratified

/-- All large depths agree on what is seen. -/
theorem exists_viewWithin {source : Ty} (viewable : start.completed.Viewable source) (target : Ty) :
    ∃ value, (∀ᶠ depth in atTop,
      start.completed.viewWithin .lax depth source target = some value) ∧
        (target.Anchored → value.Anchored) := by
  induction viewable generalizing target with
  | intro source _ ih =>
    cases mentions : target.mentionsFormal with
    | false =>
      refine ⟨target, ?_, id⟩
      rw [← map_add_atTop_eq_nat 1, eventually_map]
      exact .of_forall fun depth => by simp [Signature.viewWithin, mentions]
    | true =>
      obtain ⟨value, step, anchored⟩ : ∃ value, (∀ᶠ depth in atTop, start.completed.viewStepBy
          (start.completed.substituteWithin .lax depth) (start.completed.viewWithin .lax depth)
          source target = some value) ∧ (target.Anchored → value.Anchored) := by
        cases source with
        | formal id boxed =>
          obtain ⟨bound, isBound⟩ : ∃ bound, start.completed.constraint? id = some bound := ⟨_, rfl⟩
          simp only [Signature.viewStepBy, isBound, Option.bind_eq_bind, Option.bind_some]
          cases bound with
          | none => exact ⟨target, .of_forall fun _ => rfl, fun anchored => anchored⟩
          | some bound =>
            dsimp only
            split
            · exact ⟨target, .of_forall fun _ => rfl, fun anchored => anchored⟩
            next other => exact ih bound ⟨isBound, other⟩ target
        | applied feature args outer isRef isThis =>
          obtain ⟨result, isResult, substituted⟩ := endsFor stratified wellFormed feature target
            (fun _ => True) args (fun arg _ => Ty.among_of_forall (fun _ => trivial) arg)
            (Ty.among_of_forall (fun _ _ => trivial) target)
          have settled := eventually_substituteWithin isResult
          cases outer with
          | none =>
            refine ⟨result, ?_, substituted.anchored⟩
            filter_upwards [settled] with depth settled
            simp [Signature.viewStepBy, settled]
          | some around =>
            obtain ⟨value, isValue, anchored⟩ := ih around rfl result
            refine ⟨value, ?_, fun targetAnchored => anchored (substituted.anchored targetAnchored)⟩
            filter_upwards [settled, isValue] with depth settled isValue
            simp [Signature.viewStepBy, settled, isValue]
        | error => exact ⟨.error, .of_forall fun _ => rfl, fun _ => .error⟩
        | _ => exact ⟨target, .of_forall fun _ => rfl, id⟩
      refine ⟨value, ?_, anchored⟩
      rw [← map_add_atTop_eq_nat 1, eventually_map]
      filter_upwards [step] with depth step
      rwa [Signature.viewWithin, if_neg (by simp [mentions])]

end

/-! ## Constraint checks -/

/-- Whether the type meets a constraint is found out within the depth. -/
def MeetsWithin (start : Checker) (actual : Ty) (depth : Nat) : Prop :=
  ∀ {checker : Checker}, (Terms.ending start).invariant checker →
    ∀ {constraintId actualId : TypeId}, checker.types.Holds constraintId →
      checker.types.Denotes actualId actual →
      Realizes (.ending start) checker (meetsConstraintWithin depth constraintId actualId) (some ())
        fun _ _ _ => True

theorem ends_anyParentMeets {depth : Nat} {actual : Ty} {parents : List Parent}
    (holds : (Terms.ending start).invariant checker) {constraintId actualId : TypeId}
    (constraintHeld : checker.types.Holds constraintId)
    (actualDenotes : checker.types.Denotes actualId actual)
    (parentsHeld : ∀ parent ∈ parents, checker.types.Holds parent.ty)
    (fromParents : ∀ parent ∈ parents, ∃ seen,
      start.completed.viewWithin .lax depth actual (checker.types.tree parent.ty) = some seen ∧
        start.MeetsWithin seen depth) :
    Realizes (.ending start) checker
      (anyParentMeets (meetsConstraintWithin depth constraintId) depth actualId parents) (some ())
      fun _ _ _ => True := by
  let terms := Terms.ending start
  induction parents generalizing checker with
  | nil => exact .pure holds trivial
  | cons parent rest ih =>
    rw [List.forall_mem_cons] at parentsHeld fromParents
    obtain ⟨seen, isSeen, meets⟩ := fromParents.1
    have views := realizes_viewWithin terms trivial depth holds actualDenotes
      ⟨parentsHeld.1, rfl⟩
    rw [show start.completed.viewWithin terms.toDemands depth _ _ = _ from isSeen] at views
    refine .follow views ?_
    intro after₁ ancestor holds₁ onward₁ seenDenotes
    refine .follow (meets holds₁ (onward₁.types_extend.holds constraintHeld) seenDenotes) ?_
    intro after₂ answer holds₂ onward₂ _
    have onward := onward₁.trans onward₂
    split
    · exact .pure holds₂ trivial
    · refine ih holds₂ (onward.types_extend.holds constraintHeld)
        (terms.denotes holds holds₂ onward actualDenotes)
        (fun parent member => onward.types_extend.holds (parentsHeld.2 parent member)) ?_
      intro parent member
      rw [TypeStore.tree_eq_of_extends (terms.coherent holds) (terms.coherent holds₂)
        onward.types_extend (parentsHeld.2 parent member)]
      exact fromParents.2 parent member

theorem meetsWithin_succ {actual : Ty} {depth : Nat}
    (fromBound : actual.isFormal = true → ∀ bound, start.completed.Sees actual bound →
      start.MeetsWithin bound depth)
    (fromParents : ∀ feature, actual.appliedFeature? = some feature →
      ∀ parent ∈ ((start.features.entry feature).outline start.types.tree).parents, ∃ seen,
        start.completed.viewWithin .lax depth actual parent.ty = some seen ∧
          start.MeetsWithin seen depth) :
    start.MeetsWithin actual (depth + 1) := by
  intro checker holds constraintId actualId constraintHeld actualDenotes
  let terms := Terms.ending start
  have coherent := terms.coherent holds
  refine .look (run_readTypes checker _) ?_
  split
  · exact .pure holds trivial
  refine .look (run_readTypes checker _) ?_
  split
  · exact .pure holds trivial
  refine .node holds actualDenotes ?_
  intro layer reads
  cases reads with
  | formal id boxed =>
    obtain ⟨bound', isBound⟩ : ∃ bound, start.completed.constraint? id = some bound := ⟨_, rfl⟩
    have bounds := realizes_constraint? terms holds id
    rw [isBound] at bounds
    refine .follow bounds ?_
    intro after₁ bound holds₁ onward₁ boundDenotes
    cases boundDenotes with
    | none => exact .pure holds₁ trivial
    | some boundDenotes =>
      have sameIff := boundDenotes.inj (terms.denotes holds holds₁ onward₁ actualDenotes)
        (terms.coherent holds₁)
      dsimp only
      split
      · exact .pure holds₁ trivial
      next other =>
        exact fromBound rfl _ ⟨isBound, fun same => other (sameIff.mpr same)⟩ holds₁
          (onward₁.types_extend.holds constraintHeld) boundDenotes
  | applied feature =>
    refine .look (run_readTypes checker _) ?_
    split
    · exact .pure holds trivial
    change Realizes _ _ _ (start.completed.feature feature >>= fun _ => some ()) _
    refine .feature holds feature ?_
    intro declared found
    have outlines := (terms.obeys holds).follows.feature_eq feature declared found
    rw [completed_feature, Option.some.injEq] at outlines
    refine ends_anyParentMeets holds constraintHeld actualDenotes
      ((terms.obeys holds).features_wellFormed feature declared found).ty_held ?_
    have fromParents := fromParents feature rfl
    rw [outlines] at fromParents
    exact fun parent member => fromParents _ (List.mem_map_of_mem member)
  | _ => exact .pure holds trivial

theorem eventually_meetsWithin_of_root {actual : Ty} (notFormal : actual.isFormal = false)
    (notApplied : actual.appliedFeature? = none) :
    ∀ᶠ depth in atTop, start.MeetsWithin actual depth := by
  rw [← map_add_atTop_eq_nat 1, eventually_map]
  exact .of_forall fun depth => meetsWithin_succ (by simp [notFormal]) (by simp [notApplied])

section

variable (wellFormed : start.WellFormed) (stratified : start.features.Stratified start.types)
  (anchored : ∀ id declared, start.features.get id = .ok declared → ∀ parent ∈ declared.parents,
    (start.types.tree parent.ty).Anchored ∧
      (start.types.tree parent.ty).appliedFeature? = some parent.ancestor)

include wellFormed stratified anchored

theorem meetsWithin_applied {feature : FeatureId} {args : List Ty} {outer : Option Ty}
    {isRef isThis : Bool}
    (viewable : start.completed.Viewable (.applied feature args outer isRef isThis)) :
    ∀ᶠ depth in atTop, start.MeetsWithin (.applied feature args outer isRef isThis) depth := by
  -- From the ancestors down.
  induction feature using stratified.acyclic.induction generalizing args outer isRef isThis with
  | step feature fromAncestors =>
    have fromParents : ∀ parent ∈ (start.features.entry feature).parents, ∃ seen,
        ∀ᶠ depth in atTop, start.completed.viewWithin .lax depth
          (.applied feature args outer isRef isThis) (start.types.tree parent.ty) = some seen ∧
            start.MeetsWithin seen depth := by
      intro parent member
      obtain ⟨parentAnchored, applies⟩ := anchored feature _
        (FeatureTable.get_entry_of_mem member) parent member
      obtain ⟨seen, isSeen, seenAnchored⟩ := exists_viewWithin wellFormed stratified viewable
        (start.types.tree parent.ty)
      refine ⟨seen, isSeen.and ?_⟩
      obtain ⟨depth, settled⟩ := isSeen.exists
      have root :=
        Signature.substituteVia_rootOrError (Signature.substituteVia_of_viewWithin settled)
      cases parentTree : start.types.tree parent.ty with
      | applied ancestor =>
        rw [parentTree] at root applies
        obtain rfl : ancestor = parent.ancestor := Option.some.inj applies
        rcases root with rfl | ⟨args', outer', rfl⟩
        · exact eventually_meetsWithin_of_root rfl rfl
        · exact fromAncestors _ (FeatureTable.hasParent_of_mem member)
            (Signature.viewable_of_anchored (seenAnchored (parentTree ▸ parentAnchored)))
      | _ =>
        rw [parentTree] at applies
        cases applies
    choose! seen fromParents using fromParents
    have all := (eventually_all_finite (List.finite_toSet _)).mpr fromParents
    rw [← map_add_atTop_eq_nat 1, eventually_map]
    filter_upwards [all] with depth all
    refine meetsWithin_succ (fun isFormal => by cases isFormal) ?_
    intro feature' isFeature
    obtain rfl : feature = feature' := Option.some.inj isFeature
    exact List.forall_mem_map.mpr fun parent member => ⟨seen parent, all parent member⟩

/-- From some depth on, every constraint check for the type comes to an end. -/
theorem eventually_meetsWithin {actual : Ty} (viewable : start.completed.Viewable actual) :
    ∀ᶠ depth in atTop, start.MeetsWithin actual depth := by
  induction viewable with
  | intro actual accessible ih =>
    cases actual with
    | applied => exact meetsWithin_applied wellFormed stratified anchored (.intro _ accessible)
    | formal id boxed =>
      obtain ⟨bound, isBound⟩ : ∃ bound, start.completed.constraint? id = some bound := ⟨_, rfl⟩
      have fromBound : ∀ᶠ depth in atTop, ∀ next ∈ bound.toList,
          start.completed.Sees (.formal id boxed) next → start.MeetsWithin next depth := by
        refine (eventually_all_finite (List.finite_toSet _)).mpr fun next _ => ?_
        exact eventually_imp_distrib_left.mpr (ih next)
      rw [← map_add_atTop_eq_nat 1, eventually_map]
      filter_upwards [fromBound] with depth fromBound
      refine meetsWithin_succ (fun _ next sees => fromBound next ?_ sees) nofun
      rw [Option.some.inj (isBound.symm.trans sees.1)]
      exact List.mem_singleton_self next
    | _ => exact eventually_meetsWithin_of_root rfl rfl

end

end Checker

end FeatureTypes

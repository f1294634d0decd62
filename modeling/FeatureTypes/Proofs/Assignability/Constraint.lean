import Mathlib.Order.Filter.Finite
import FeatureTypes.Proofs.Feature.Ancestry
import FeatureTypes.Proofs.Meaning.Constraint
import FeatureTypes.Proofs.Substitution.View

/-!
# Constraints and inheritance

A constraint is checked by going from the type at hand to its ancestors, each as seen from
its heir.  Seeing an ancestor changes the arguments and the outer types, but not the
feature.
-/

namespace FeatureTypes

variable {replacement : FormalId → Ty}

namespace FeatureTable

variable {table : FeatureTable} {unfold : TypeId → Ty}

/-! ## Ancestors in order -/

def FitsRoot (table : FeatureTable) : (ty : Ty) → Prop
  | .applied feature args _ _ _ => table.Fits feature args.length
  | _ => True

instance (table : FeatureTable) : DecidablePred table.FitsRoot
  | .applied feature args _ _ _ => inferInstanceAs (Decidable (table.Fits feature args.length))
  | .error | .void | .undefined | .formal _ _ => isTrue trivial

/-- All features that occur in the type are applied to as many arguments as they have
formals. -/
def FitsThroughout (table : FeatureTable) (ty : Ty) : Prop :=
  ∀ part ∈ ty.parts, table.FitsRoot part

instance (table : FeatureTable) : DecidablePred table.FitsThroughout :=
  fun ty => inferInstanceAs (Decidable (∀ part ∈ ty.parts, table.FitsRoot part))

section

variable {ty : Ty} (enclosing : table.Enclosing ty)

include enclosing

theorem Enclosing.declaresAll : table.DeclaresAll ty := by
  induction enclosing with
  | outermost fits declares =>
    have ⟨_, found, _⟩ := fits
    exact Ty.over_applied_iff.mpr ⟨index_lt_size found, declares, by simp⟩
  | inside fits declares _ aroundDeclared =>
    have ⟨_, found, _⟩ := fits
    exact Ty.over_applied_iff.mpr ⟨index_lt_size found, declares,
      fun _ present => Option.some.inj present ▸ aroundDeclared⟩

theorem Enclosing.exists_applied :
    ∃ feature args outer isRef isThis, ty = .applied feature args outer isRef isThis ∧
      table.Fits feature args.length := by
  cases enclosing with
  | outermost fits _ => exact ⟨_, _, _, _, _, rfl, fits⟩
  | inside fits _ _ => exact ⟨_, _, _, _, _, rfl, fits⟩

theorem Enclosing.replace (declares : table.DeclaresAll (ty.replace replacement)) :
    table.Enclosing (ty.replace replacement) := by
  induction enclosing with
  | outermost fits _ =>
    rw [Ty.replace_applied] at declares ⊢
    exact .outermost (by simpa using fits) (Ty.over_applied_iff.mp declares).2.1
  | inside fits _ _ ih =>
    rw [Ty.replace_applied] at declares ⊢
    obtain ⟨_, argsDeclared, aroundDeclared⟩ := Ty.over_applied_iff.mp declares
    exact .inside (by simpa using fits) argsDeclared
      (ih (aroundDeclared _ rfl))

theorem Enclosing.appliedFeature?_replace :
    (ty.replace replacement).appliedFeature? = ty.appliedFeature? := by
  obtain ⟨_, _, _, _, _, rfl, _⟩ := enclosing.exists_applied
  rw [Ty.replace_applied]
  rfl

end

theorem SelfTyped.enclosing {ty : Ty} (selfTyped : table.SelfTyped ty)
    (fits : table.FitsThroughout ty) : table.Enclosing ty := by
  induction selfTyped with
  | @intro feature formals outer isRef declares _ ih =>
    have rootFits := fits _ (Ty.self_mem_parts _)
    have argsDeclared : ∀ arg ∈ formals.map (Ty.formal · false), table.DeclaresAll arg := by
      rw [List.forall_mem_map]
      exact fun formal member => Ty.over_formal_iff.mpr (declares formal member)
    cases outer with
    | none => exact .outermost rootFits argsDeclared
    | some around =>
      exact .inside rootFits argsDeclared (ih around rfl fun part occurs =>
        fits part (Ty.mem_parts_of_outer occurs))

theorem Regular.enclosing_parent {types : TypeStore} (regular : table.Regular types.tree)
    (coherent : types.Coherent) (built : table.Built types) {heir : FeatureId} {declared : Feature}
    (found : table.get heir = .ok declared) {parent : Parent} (member : parent ∈ declared.parents)
    (fits : table.FitsThroughout (types.tree parent.ty)) :
    table.Enclosing (types.tree parent.ty) ∧
      (types.tree parent.ty).appliedFeature? = some parent.ancestor := by
  obtain ⟨held, ancestor, outer, _, node, _⟩ :=
    (built.orderly.each heir declared found).parent_spelled parent member
  have treeEq := TypeStore.tree_eq coherent held
  rw [node, Node.toTy] at treeEq
  have placed := (built.orderly.each heir declared found).parent_placed parent member
  have declares : ∀ arg ∈ parent.actuals.map types.tree, table.DeclaresAll arg := by
    rw [List.forall_mem_map]
    exact fun actual present =>
      (regular.actuals_over heir declared found parent member actual present).mono
        fun _ own => own.2
  rw [treeEq] at fits placed ⊢
  refine ⟨?_, rfl⟩
  have rootFits := fits _ (Ty.self_mem_parts _)
  cases outer with
  | none => exact .outermost rootFits declares
  | some around =>
    have aroundSelf := placed _ _ _ _ _ rfl
    exact .inside rootFits declares (aroundSelf.enclosing fun part occurs =>
      fits part (Ty.mem_parts_of_outer occurs))

end FeatureTable

namespace Checker

open Filter

variable {table : FeatureTable} {start origin checker : Checker}

/-! ## The walk to the ancestors -/

/-- It is found out, and nothing is reported, whether the actual type may be passed for a formal
with the constraint: it may if the one feature inherits from the other. -/
def MeetsByInheritance (start : Checker) (constraint actual : Ty) (heir ancestor : FeatureId)
    (depth : Nat) : Prop :=
  ∀ {origin checker : Checker}, start.Resumes (· ≠ .error) origin checker →
    ∀ {constraintId actualId : TypeId}, checker.types.Denotes constraintId constraint →
      checker.types.Denotes actualId actual →
        Realizes (.smooth start (· ≠ .error) origin) checker
          (meetsConstraintWithin depth constraintId actualId) (some ())
          fun _ answer _ => answer = true ↔ start.features.Inherits heir ancestor

theorem Resumes.denotes_parent {admits : Ty → Prop} (resumes : start.Resumes admits origin checker)
    {id : FeatureId} {declared : Feature} (found : start.features.get id = .ok declared)
    {parent : Parent} (member : parent ∈ declared.parents) :
    checker.types.Denotes parent.ty (start.types.tree parent.ty) := by
  have foundLater := resumes.features_eq.symm ▸ found
  refine ⟨(resumes.features_wellFormed id declared foundLater).ty_held parent member, ?_⟩
  have outlines := (resumes.follows.feature_eq id declared foundLater).symm.trans
    (start.follows_signature.feature_eq id declared found)
  have parents := congrArg Outline.parents (Option.some.inj outlines)
  exact congrArg ParentOutline.ty (List.map_inj_left.mp parents parent member)

section

variable {actual constraint : Ty} (constraintEnclosing : table.Enclosing constraint)
  (actualEnclosing : table.Enclosing actual)

include constraintEnclosing actualEnclosing

theorem triviallyMeets_iff_eq :
    constraint.TriviallyMeets actual ↔ constraint = actual := by
  have constraintWhole := constraintEnclosing.declaresAll.whole
  have actualWhole := actualEnclosing.declaresAll.whole
  simp only [Ty.TriviallyMeets, constraintWhole, actualWhole, not_true, false_or]
  cases constraintEnclosing <;> cases actualEnclosing <;> simp [Ty.isAbsorbing]

theorem sameShape_iff_eq :
    constraint.SameShape actual ↔ constraint.appliedFeature? = actual.appliedFeature? := by
  refine ⟨And.left, fun same => ⟨same, ?_⟩⟩
  obtain ⟨_, _, _, _, _, rfl, _, found, lengthEq⟩ := constraintEnclosing.exists_applied
  obtain ⟨_, _, _, _, _, rfl, _, found', lengthEq'⟩ := actualEnclosing.exists_applied
  obtain rfl := Option.some.inj same
  obtain rfl := Except.ok.inj (found.symm.trans found')
  exact lengthEq.trans lengthEq'.symm

end

section

variable {constraint actual : Ty} {constraintId actualId : TypeId} {ancestor : FeatureId}

theorem realizes_anyParentMeets {depth : Nat} {parents : List Parent}
    (resumes : start.Resumes (· ≠ .error) origin checker)
    (parentsDenote : ∀ {checker : Checker}, start.Resumes (· ≠ .error) origin checker →
      ∀ parent ∈ parents, checker.types.Denotes parent.ty (start.types.tree parent.ty))
    (sees : ∀ parent ∈ parents, start.smoothViaWithin (· ≠ .error) depth actual
      (start.types.tree parent.ty) = some ((start.types.tree parent.ty).replace replacement))
    (meets : ∀ parent ∈ parents, start.MeetsByInheritance constraint
      ((start.types.tree parent.ty).replace replacement) parent.ancestor ancestor depth)
    (constraintDenotes : checker.types.Denotes constraintId constraint)
    (actualDenotes : checker.types.Denotes actualId actual) :
    Realizes (.smooth start (· ≠ .error) origin) checker
      (anyParentMeets (meetsConstraintWithin depth constraintId) depth actualId parents) (some ())
      fun _ answer _ => answer = true ↔
        ∃ parent ∈ parents, start.features.Inherits parent.ancestor ancestor := by
  induction parents generalizing checker with
  | nil => exact .pure resumes (by simp)
  | cons parent rest ih =>
    rw [List.forall_mem_cons] at sees meets
    have seesParent := realizes_smoothViaWithin resumes actualDenotes
      (parentsDenote resumes parent List.mem_cons_self) depth
    rw [sees.1] at seesParent
    refine .follow seesParent ?_
    intro after₁ seen resumes₁ onward₁ seenDenotes
    refine .follow (meets.1 resumes₁ (resumes.denotes resumes₁.toObeys onward₁ constraintDenotes)
      seenDenotes) ?_
    intro after₂ answer resumes₂ onward₂ answerIff
    have onward := onward₁.trans onward₂
    cases answer with
    | true => exact .pure resumes₂ (by simp [answerIff.mp rfl])
    | false =>
      have unrelated := mt answerIff.mpr Bool.false_ne_true
      simp only [List.exists_mem_cons_iff, unrelated, false_or]
      exact ih resumes₂ (fun resumes' parent member =>
          parentsDenote resumes' parent (List.mem_cons_of_mem _ member)) sees.2 meets.2
        (resumes.denotes resumes₂.toObeys onward constraintDenotes)
        (resumes.denotes resumes₂.toObeys onward actualDenotes)

variable (wellFormed : start.WellFormed) (regular : start.features.Regular start.types.tree)
  (built : start.features.Built start.types)
  (fitting : ∀ id declared, start.features.get id = .ok declared →
    ∀ parent ∈ declared.parents, start.features.FitsThroughout (start.types.tree parent.ty))
  (constraintEnclosing : start.features.Enclosing constraint)
  (constraintApplies : constraint.appliedFeature? = some ancestor)

include wellFormed regular built fitting constraintEnclosing constraintApplies

theorem eventually_meetsByInheritance (heir : FeatureId) {actual : Ty}
    (enclosing : start.features.Enclosing actual) (applies : actual.appliedFeature? = some heir) :
    ∀ᶠ depth in atTop, start.MeetsByInheritance constraint actual heir ancestor depth := by
  induction heir using regular.acyclic.induction generalizing actual with
  | step heir ih =>
    obtain ⟨replacement, sees⟩ := exists_replacement_of_enclosing wellFormed regular enclosing
    obtain ⟨_, args, outer, isRef, isThis, rfl, fits⟩ := enclosing.exists_applied
    obtain rfl := Option.some.inj applies
    have ⟨declared, found, _⟩ := fits
    have parentEnclosing := fun parent (member : parent ∈ declared.parents) =>
      regular.enclosing_parent wellFormed.types_canonical.toCoherent built found member
        (fitting _ declared found parent member)
    -- One more level than is enough for every parent is enough for the heir.
    rw [← map_add_atTop_eq_nat 1, eventually_map]
    filter_upwards [(eventually_all_finite (List.finite_toSet declared.parents)).mpr
        fun parent member => (sees _ (parentEnclosing parent member).1.declaresAll).2,
      (eventually_all_finite (List.finite_toSet declared.parents)).mpr fun parent member =>
        ih parent.ancestor ⟨declared, found, parent, member, rfl⟩
          ((parentEnclosing parent member).1.replace
            (sees _ (parentEnclosing parent member).1.declaresAll).1)
          ((parentEnclosing parent member).1.appliedFeature?_replace.trans
            (parentEnclosing parent member).2)] with depth sees meets
    intro origin checker resumes constraintId actualId constraintDenotes actualDenotes
    have canonical := resumes.types_canonical
    refine .look (run_readTypes checker _) ?_
    have triviallyIff := constraintDenotes.triviallyMeets_iff actualDenotes canonical
    rw [triviallyMeets_iff_eq constraintEnclosing enclosing] at triviallyIff
    split
    next trivially =>
      obtain rfl := triviallyIff.mp trivially
      obtain rfl := Option.some.inj constraintApplies
      exact .pure resumes (iff_of_true rfl .refl)
    next =>
      refine .look (run_readTypes checker _) ?_
      have notFormal : constraint.isFormal = false := by
        obtain ⟨_, _, _, _, _, rfl, _⟩ := constraintEnclosing.exists_applied
        rfl
      rw [constraintDenotes.isFormal_eq canonical.toCoherent, notFormal]
      obtain ⟨argIds, outerId, node, _, _⟩ := actualDenotes.node_applied canonical.toCoherent
      refine .look (run_node checker actualId) ?_
      rw [node]
      refine .look (run_readTypes checker _) ?_
      have shapeIff := constraintDenotes.sameShape_iff actualDenotes canonical.toCoherent
      rw [sameShape_iff_eq constraintEnclosing enclosing, constraintApplies] at shapeIff
      rw [FeatureTable.inherits_iff found]
      split
      next sameShape =>
        have same := Option.some.inj (shapeIff.mp sameShape)
        exact .pure resumes (iff_of_true rfl (Or.inl same.symm))
      next different =>
        rw [or_iff_right fun same => different (shapeIff.mpr (congrArg some same.symm))]
        refine .look (run_feature checker (resumes.features_eq ▸ found)) ?_
        exact realizes_anyParentMeets resumes (fun resumes' _ => resumes'.denotes_parent found)
          sees meets constraintDenotes actualDenotes

end

/-- Among types in order, those that meet a constraint are those whose feature inherits from the
feature of the constraint. -/
theorem meetsConstraint_iff_inherits
    (start : Checker) (reachable : start.Reachable)
    (regular : start.features.Regular start.types.tree)
    (fitting : ∀ id declared, start.features.get id = .ok declared →
      ∀ parent ∈ declared.parents, start.features.FitsThroughout (start.types.tree parent.ty))
    (constraint actual : TypeId) (held : ∀ ty ∈ [constraint, actual], start.types.Holds ty)
    (enclosing : ∀ ty ∈ [constraint, actual],
      start.features.Enclosing (start.types.tree ty))
    {heir ancestor : FeatureId} (applies : start.types.feature? actual = some heir)
    (constraintApplies : start.types.feature? constraint = some ancestor) :
    ∃ enough, ∀ checker : Checker, checker.types = start.types →
      checker.features = start.features → checker.Faithful → enough ≤ checker.options.depthLimit →
        ∃ answer after, (meetsConstraint constraint actual).run checker = .ok answer after ∧
          after.reports = checker.reports ∧
          start.features.inheritsFrom heir ancestor = .ok answer := by
  simp only [List.forall_mem_cons] at held enclosing
  obtain ⟨constraintHeld, actualHeld, _⟩ := held
  obtain ⟨constraintEnclosing, actualEnclosing, _⟩ := enclosing
  have wellFormed := reachable.sound.toWellFormed
  have coherent := wellFormed.types_canonical.toCoherent
  have constraintDenotes : start.types.Denotes constraint _ := ⟨constraintHeld, rfl⟩
  have actualDenotes : start.types.Denotes actual _ := ⟨actualHeld, rfl⟩
  rw [actualDenotes.feature?_eq coherent] at applies
  rw [constraintDenotes.feature?_eq coherent] at constraintApplies
  obtain ⟨enough, meets⟩ := eventually_atTop.mp (eventually_meetsByInheritance wellFormed regular
    reachable.built fitting constraintEnclosing constraintApplies heir actualEnclosing applies)
  refine ⟨enough, fun checker typesEq featuresEq faithful deep => ?_⟩
  have denotes : ∀ {ty : TypeId} {tree : Ty}, start.types.Denotes ty tree →
      checker.types.Denotes ty tree := fun denotes => typesEq.symm ▸ denotes
  have realizes : Realizes (.smooth start (· ≠ .error) checker) checker
      (meetsConstraint constraint actual) (some ()) fun _ answer _ =>
        answer = true ↔ start.features.Inherits heir ancestor :=
    .look (EStateM.run_get checker) (meets _ deep
      (Resumes.of_faithful typesEq featuresEq faithful _) (denotes constraintDenotes)
      (denotes actualDenotes))
  obtain ⟨answer, after, run, resumes, _, answerIff⟩ := realizes.exists_run
  have declares : start.features.Declares heir := by
    obtain ⟨_, _, _, _, _, treeEq, _, found, _⟩ := actualEnclosing.exists_applied
    rw [treeEq] at applies
    obtain rfl := Option.some.inj applies
    exact FeatureTable.index_lt_size found
  obtain ⟨answer', answered, answerIff'⟩ :=
    reachable.built.orderly.closed.inheritsFrom_ok declares ancestor
  obtain rfl : answer' = answer := Bool.eq_iff_iff.mpr (answerIff'.trans answerIff.symm)
  exact ⟨answer', after, run, (resumes.quiet fun admitted => admitted rfl).1, answered⟩

/-- A leaf inside a shell inherits from lists through an item that is inside the shell as well. -/
theorem meetsConstraint_iff_inherits_leaf :
    let start := afterAll [.declare (.feature "any" none true), .construct (.instantiate ⟨1⟩ []),
      .declare (.feature "shell" none false), .declare (.formal ⟨2⟩ "S" ⟨3⟩ false {}),
      .declare (.feature "list" none true), .declare (.formal ⟨3⟩ "T" ⟨3⟩ false {}),
      .declare (.feature "item" (some ⟨2⟩) true), .declare (.formal ⟨4⟩ "U" ⟨3⟩ false {}),
      .declare (.parent ⟨4⟩ ⟨3⟩ [⟨6⟩]), .declare (.feature "leaf" (some ⟨2⟩) false),
      .declare (.parent ⟨5⟩ ⟨4⟩ [⟨3⟩]), .construct (.selfType ⟨5⟩),
      .construct (.instantiate ⟨3⟩ [⟨3⟩])] {}
    start.features.Regular start.types.tree ∧
      start.types.feature? ⟨10⟩ = some ⟨5⟩ ∧ start.types.feature? ⟨11⟩ = some ⟨3⟩ ∧
      start.features.Inherits ⟨5⟩ ⟨3⟩ ∧
      ∃ enough, ∀ depthLimit ≥ enough, ∃ after,
        (meetsConstraint ⟨11⟩ ⟨10⟩).run (start.limited depthLimit) = .ok true after ∧
          after.reports = start.reports := by
  intro start
  have reachable : start.Reachable := (Reachable.initial {} {}).steps (by decide +kernel)
  have regular : start.features.Regular start.types.tree := by
    refine ⟨FeatureTable.acyclic_of_index_lt ?_, ?_, ?_, ?_, ?_⟩
    all_goals exact FeatureTable.forall_declared (by decide +kernel)
  have fitting : ∀ id declared, start.features.get id = .ok declared →
      ∀ parent ∈ declared.parents, start.features.FitsThroughout (start.types.tree parent.ty) :=
    FeatureTable.forall_declared (by decide +kernel)
  have leafTree : start.types.tree ⟨10⟩ = .applied ⟨5⟩ []
      (some (.applied ⟨2⟩ [start.types.tree ⟨4⟩] none false false)) false false := by
    decide +kernel
  have listTree : start.types.tree ⟨11⟩ =
      .applied ⟨3⟩ [start.types.tree ⟨3⟩] none true false := by decide +kernel
  have shellEnclosing : start.features.Enclosing
      (.applied ⟨2⟩ [start.types.tree ⟨4⟩] none false false) :=
    .outermost (by decide +kernel) (by decide +kernel)
  have leafEnclosing : start.features.Enclosing (start.types.tree ⟨10⟩) :=
    leafTree ▸ .inside (by decide +kernel) (by simp) shellEnclosing
  have listEnclosing : start.features.Enclosing (start.types.tree ⟨11⟩) :=
    listTree ▸ .outermost (by decide +kernel) (by decide +kernel)
  have leafApplies : start.types.feature? ⟨10⟩ = some ⟨5⟩ := by decide +kernel
  have listApplies : start.types.feature? ⟨11⟩ = some ⟨3⟩ := by decide +kernel
  have itemParent : start.features.HasParent ⟨5⟩ ⟨4⟩ := by decide +kernel
  have listParent : start.features.HasParent ⟨4⟩ ⟨3⟩ := by decide +kernel
  have held : ∀ ty ∈ [⟨11⟩, ⟨10⟩], start.types.Holds ty := by decide +kernel
  have faithful : start.Faithful := reachable.faithful (by decide +kernel)
  clear_value start
  obtain ⟨enough, runs⟩ := meetsConstraint_iff_inherits start reachable regular fitting ⟨11⟩ ⟨10⟩
    held (by simpa using ⟨listEnclosing, leafEnclosing⟩) leafApplies listApplies
  have inherits : start.features.Inherits ⟨5⟩ ⟨3⟩ := .tail (.single itemParent) listParent
  refine ⟨regular, leafApplies, listApplies, inherits, enough, fun depthLimit deep => ?_⟩
  obtain ⟨answer, after, run, reportsEq, answered⟩ :=
    runs (start.limited depthLimit) rfl rfl (faithful.limited depthLimit) deep
  obtain rfl := (FeatureTable.inheritsFrom_iff answered).mpr inherits
  exact ⟨after, run, reportsEq⟩

end Checker

end FeatureTypes

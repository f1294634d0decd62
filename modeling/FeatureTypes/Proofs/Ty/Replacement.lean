import FeatureTypes.Proofs.Ty.Parts

/-!
# Simultaneous replacement of formals
-/

namespace FeatureTypes.Ty

variable {ty : Ty}

/-! ## References -/

/-- The type held through a reference.  Only formals and applied features can be held
so. -/
def asRef : Ty → Ty
  | .formal id _ => .formal id true
  | .applied feature args outer _ isThis => .applied feature args outer true isThis
  | ty => ty

@[simp]
theorem asRef_asRef (ty : Ty) : ty.asRef.asRef = ty.asRef := by
  cases ty <;> rfl

@[simp]
theorem asRef_eq_error_iff : ty.asRef = .error ↔ ty = .error := by
  cases ty <;> simp [asRef]

/-! ## Replacement -/

mutual

/-- The type with every formal replaced. -/
def replace (replacement : FormalId → Ty) : Ty → Ty
  | .formal id boxed => if boxed then (replacement id).asRef else replacement id
  | .applied feature args outer isRef isThis =>
    .applied feature (replaceList replacement args) (replaceOption replacement outer) isRef isThis
  | .error => .error
  | .void => .void
  | .undefined => .undefined

/-- The types with every formal replaced. -/
def replaceList (replacement : FormalId → Ty) : List Ty → List Ty
  | [] => []
  | ty :: rest => replace replacement ty :: replaceList replacement rest

/-- The optional type with every formal replaced. -/
def replaceOption (replacement : FormalId → Ty) : Option Ty → Option Ty
  | none => none
  | some ty => some (replace replacement ty)

end

section

variable (replacement : FormalId → Ty)

include replacement

theorem replaceList_eq_map (list : List Ty) :
    replaceList replacement list = list.map (replace replacement) := by
  induction list with
  | nil => rfl
  | cons ty rest ih => rw [replaceList, ih, List.map_cons]

theorem replaceOption_eq_map (outer : Option Ty) :
    replaceOption replacement outer = outer.map (replace replacement) := by
  cases outer <;> rfl

theorem replace_applied (feature : FeatureId) (args : List Ty) (outer : Option Ty)
    (isRef isThis : Bool) :
    replace replacement (.applied feature args outer isRef isThis) =
      .applied feature (args.map (replace replacement)) (outer.map (replace replacement))
        isRef isThis := by
  rw [replace, replaceList_eq_map, replaceOption_eq_map]

@[simp]
theorem replace_formal_false (id : FormalId) :
    replace replacement (.formal id false) = replacement id := by
  simp [replace]

theorem replace_asRef (ty : Ty) :
    replace replacement ty.asRef = (replace replacement ty).asRef := by
  cases ty with
  | formal id boxed =>
    cases boxed with
    | false => simp [asRef, replace]
    | true => exact (asRef_asRef (replacement id)).symm
  | _ => rfl

end

/-- Two replacements in a row are one. -/
theorem replace_replace (first second : FormalId → Ty) (ty : Ty) :
    replace second (replace first ty) = replace (fun id => replace second (first id)) ty := by
  induction ty with
  | formal id boxed => cases boxed <;> simp [replace, replace_asRef]
  | applied feature args outer isRef isThis argsEq outerEq =>
    simp only [replace_applied, List.map_map, Option.map_map]
    congr 1
    · exact List.map_congr_left argsEq
    · cases outer with
      | none => rfl
      | some around => exact congrArg some (outerEq around rfl)
  | _ => rfl

theorem replace_eq_self_iff {replacement : FormalId → Ty} :
    ty.replace replacement = ty ↔ ∀ id boxed, Ty.formal id boxed ∈ ty.parts →
      (Ty.formal id boxed).replace replacement = .formal id boxed := by
  induction ty with
  | formal id boxed => simp [parts]
  | applied feature args outer isRef isThis argsIff outerIff =>
    have argsEq : args.map (replace replacement) = args ↔
        ∀ arg ∈ args, arg.replace replacement = arg :=
      ⟨fun same => List.map_inj_left.mp (same.trans (List.map_id args).symm),
        fun same => (List.map_inj_left.mpr same).trans (List.map_id args)⟩
    have outerEq : outer.map (replace replacement) = outer ↔
        ∀ around, outer = some around → around.replace replacement = around := by
      cases outer <;> simp
    rw [replace_applied, applied.injEq, argsEq, outerEq]
    simp only [mem_parts_applied, reduceCtorEq, false_or, true_and, and_true]
    constructor
    · rintro ⟨argsStay, outerStays⟩ id boxed (⟨arg, member, occurs⟩ | ⟨around, present, occurs⟩)
      · exact (argsIff arg member).mp (argsStay arg member) id boxed occurs
      · exact (outerIff around present).mp (outerStays around present) id boxed occurs
    · intro stay
      refine ⟨fun arg member => (argsIff arg member).mpr ?_,
        fun around present => (outerIff around present).mpr ?_⟩
      · exact fun id boxed occurs => stay id boxed (Or.inl ⟨arg, member, occurs⟩)
      · exact fun id boxed occurs => stay id boxed (Or.inr ⟨around, present, occurs⟩)
  | _ => simp [replace, parts]

theorem replace_self (ty : Ty) : ty.replace (.formal · false) = ty :=
  replace_eq_self_iff.mpr fun _ boxed _ => by cases boxed <;> rfl

/-- The type is a formal of `owner`. -/
def BelongsTo (owner : FeatureId) : Ty → Prop
  | .formal id _ => id.feature = owner
  | _ => False

/-! ## Types over given formals and features -/

/-- The type, apart from its parts, is no error type, no formal outside `formals`, and
applies no feature outside `features`. -/
def RootOver (formals : FormalId → Prop) (features : FeatureId → Prop) : Ty → Prop
  | .error => False
  | .formal id _ => formals id
  | .applied feature _ _ _ _ => features feature
  | .void | .undefined => True

/-- The type is over the given formals and features: it contains no error type, its
formals are among `formals`, and the features that it applies among `features`. -/
def Over (formals : FormalId → Prop) (features : FeatureId → Prop) (ty : Ty) : Prop :=
  ∀ part ∈ ty.parts, part.RootOver formals features

instance (formals : FormalId → Prop) (features : FeatureId → Prop) [DecidablePred formals]
    [DecidablePred features] : DecidablePred (RootOver formals features)
  | .error => inferInstanceAs (Decidable False)
  | .formal id _ => inferInstanceAs (Decidable (formals id))
  | .applied feature _ _ _ _ => inferInstanceAs (Decidable (features feature))
  | .void | .undefined => inferInstanceAs (Decidable True)

instance (formals : FormalId → Prop) (features : FeatureId → Prop) [DecidablePred formals]
    [DecidablePred features] (ty : Ty) : Decidable (ty.Over formals features) :=
  inferInstanceAs (Decidable (∀ part ∈ ty.parts, part.RootOver formals features))

section

variable {formals formals' : FormalId → Prop} {features : FeatureId → Prop}

theorem over_formal_iff {id : FormalId} {boxed : Bool} :
    (Ty.formal id boxed).Over formals features ↔ formals id := by
  simp [Over, RootOver, parts]

theorem over_applied_iff {feature : FeatureId} {args : List Ty} {outer : Option Ty}
    {isRef isThis : Bool} :
    (Ty.applied feature args outer isRef isThis).Over formals features ↔
      features feature ∧ (∀ arg ∈ args, arg.Over formals features) ∧
        ∀ around, outer = some around → around.Over formals features := by
  constructor
  · intro covered
    refine ⟨covered _ (self_mem_parts _), fun arg member part occurs => ?_,
      fun around present part occurs => ?_⟩
    · exact covered part (mem_parts_of_mem_args member occurs)
    · subst present
      exact covered part (mem_parts_of_outer occurs)
  · rintro ⟨applied, argsOver, outerOver⟩ part occurs
    rcases mem_parts_applied.mp occurs with rfl | ⟨arg, member, inArg⟩ | ⟨around, present, inOuter⟩
    · exact applied
    · exact argsOver arg member part inArg
    · exact outerOver around present part inOuter

section

variable (covered : ty.Over formals features)

include covered

theorem Over.child {child : Ty} (member : child ∈ ty.children) : child.Over formals features :=
  fun part occurs => covered part (mem_parts_of_mem_children member occurs)

theorem Over.ne_error : ty ≠ .error := by
  rintro rfl
  exact covered .error (self_mem_parts _)

theorem Over.imp {features' : FeatureId → Prop} (weaker : ∀ id, formals id → formals' id)
    (weakerFeatures : ∀ id, features id → features' id) : ty.Over formals' features' := by
  intro part occurs
  have holds := covered part occurs
  cases part with
  | formal id boxed => exact weaker id holds
  | applied feature args outer isRef isThis => exact weakerFeatures feature holds
  | _ => exact holds

theorem Over.mono (weaker : ∀ id, formals id → formals' id) : ty.Over formals' features :=
  covered.imp weaker fun _ => id

end

theorem Chain.of_over {property : FeatureId → List Ty → Prop} (chain : ty.Chain property)
    (covered : ty.Over formals features) : ty.Chain fun feature _ => features feature := by
  induction chain with
  | applied _ _ fromOuter =>
    obtain ⟨holds, _, outerCovered⟩ := over_applied_iff.mp covered
    exact .applied holds fun around present =>
      fromOuter around present (outerCovered around present)

theorem Over.asRef (covered : ty.Over formals features) : ty.asRef.Over formals features := by
  cases ty with
  | formal id boxed => exact over_formal_iff.mpr (over_formal_iff.mp covered)
  | applied feature args outer isRef isThis =>
    exact over_applied_iff.mpr (over_applied_iff.mp covered)
  | _ => exact covered

/-- The formals of the result are those of what was put in. -/
theorem Over.replace {replacement : FormalId → Ty}
    (covered : ty.Over (fun id => (replacement id).Over formals features) features) :
    (ty.replace replacement).Over formals features := by
  induction ty with
  | formal id boxed =>
    have replaced := over_formal_iff.mp covered
    cases boxed with
    | false => rwa [replace_formal_false]
    | true => exact replaced.asRef
  | applied feature args outer isRef isThis argsOver outerOver =>
    obtain ⟨applied, overArgs, overOuter⟩ := over_applied_iff.mp covered
    rw [replace_applied, over_applied_iff]
    refine ⟨applied, ?_, ?_⟩
    · intro arg member
      obtain ⟨arg, original, rfl⟩ := List.mem_map.mp member
      exact argsOver arg original (overArgs arg original)
    · intro around present
      obtain ⟨around, original, rfl⟩ := Option.map_eq_some_iff.mp present
      exact outerOver around original (overOuter around original)
  | error => exact absurd rfl covered.ne_error
  | _ => simp [Ty.replace, Over, RootOver, parts]

/-- A replacement depends on the formals that occur. -/
theorem replace_congr {first second : FormalId → Ty} (covered : ty.Over formals features)
    (agree : ∀ id, formals id → first id = second id) : ty.replace first = ty.replace second := by
  induction ty with
  | formal id boxed => simp only [replace, agree id (over_formal_iff.mp covered)]
  | applied feature args outer isRef isThis argsEq outerEq =>
    obtain ⟨_, overArgs, overOuter⟩ := over_applied_iff.mp covered
    simp only [replace_applied]
    congr 1
    · exact List.map_congr_left fun arg member => argsEq arg member (overArgs arg member)
    · cases outer with
      | none => rfl
      | some around => exact congrArg some (outerEq around rfl (overOuter around rfl))
  | _ => rfl

end

end FeatureTypes.Ty

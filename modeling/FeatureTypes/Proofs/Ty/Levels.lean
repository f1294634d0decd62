import FeatureTypes.Proofs.Store.Flags

/-!
# Enclosing instances on trees

The levels of a type are the type itself and its outer types, from the inside out.
-/

namespace FeatureTypes.Ty

mutual

/-- The type and its outer types, from the inside out. -/
def levels : Ty → List Ty
  | .applied feature args outer isRef isThis =>
    .applied feature args outer isRef isThis :: levelsOfOption outer
  | ty => [ty]

/-- The levels of an optional type. -/
def levelsOfOption : Option Ty → List Ty
  | none => []
  | some ty => levels ty

end

/-! ## Parts of a layer -/

/-- The type with a function applied to its arguments and to its outer type. -/
def mapChildren (value : Ty → Ty) : Ty → Ty
  | .applied feature args outer isRef isThis =>
    .applied feature (args.map value) (outer.map value) isRef isThis
  | ty => ty

theorem mapChildren_eq_self {value : Ty → Ty} {ty : Ty}
    (unchanged : ∀ child ∈ ty.children, value child = child) : ty.mapChildren value = ty := by
  cases ty with
  | applied feature args outer isRef isThis =>
    rw [mapChildren]
    congr 1
    · exact (List.map_congr_left fun arg member =>
        unchanged arg (List.mem_append_left _ member)).trans (List.map_id args)
    · cases outer with
      | none => rfl
      | some around => exact congrArg some (unchanged around (List.mem_append_right _ (by simp)))
  | _ => rfl

theorem mapChildren_mapChildren (first second : Ty → Ty) (ty : Ty) :
    (ty.mapChildren first).mapChildren second =
      ty.mapChildren fun child => second (first child) := by
  cases ty with
  | applied feature args outer isRef isThis => simp [mapChildren, Function.comp_def]
  | _ => rfl

theorem mapChildren_congr {first second : Ty → Ty} {ty : Ty}
    (same : ∀ child ∈ ty.children, first child = second child) :
    ty.mapChildren first = ty.mapChildren second := by
  cases ty with
  | applied feature args outer isRef isThis =>
    rw [mapChildren, mapChildren]
    congr 1
    · exact List.map_congr_left fun arg member => same arg (List.mem_append_left _ member)
    · exact Option.map_congr fun around present =>
        same around (List.mem_append_right _ (Option.mem_toList.mpr present))
  | _ => rfl

theorem isThis_mapChildren (value : Ty → Ty) (ty : Ty) :
    (ty.mapChildren value).isThis = ty.isThis := by
  cases ty <;> rfl

theorem children_mapChildren (value : Ty → Ty) (ty : Ty) :
    (ty.mapChildren value).children = ty.children.map value := by
  cases ty with
  | applied feature args outer isRef isThis => cases outer <;> simp [mapChildren, children]
  | _ => rfl

theorem mentionsThis_eq_false_iff {ty : Ty} :
    ty.mentionsThis = false ↔
      ty.isThis = false ∧ ∀ child ∈ ty.children, child.mentionsThis = false := by
  rw [mentionsThis, any_parts, Bool.or_eq_false_iff, List.any_eq_false]
  simp only [Bool.not_eq_true]
  rfl

/-! ## Replacement of enclosing instances -/

/-- What replaces a type that is an enclosing instance. -/
def standIn (levelFor : FeatureId → Option Ty) : Ty → Option Ty
  | .applied feature _ _ _ true => levelFor feature
  | _ => none

mutual

/-- The type with its enclosing instances replaced from the root down, that of a feature by
what `levelFor` has for it.  All else stays as it is. -/
def replaceThis (levelFor : FeatureId → Option Ty) : Ty → Ty
  | .applied feature args outer isRef isThis =>
    (standIn levelFor (.applied feature args outer isRef isThis)).getD
      (.applied feature (replaceThisList levelFor args) (replaceThisOption levelFor outer) isRef
        isThis)
  | ty => ty

/-- The types with their enclosing instances replaced. -/
def replaceThisList (levelFor : FeatureId → Option Ty) : List Ty → List Ty
  | [] => []
  | ty :: rest => replaceThis levelFor ty :: replaceThisList levelFor rest

/-- The optional type with its enclosing instances replaced. -/
def replaceThisOption (levelFor : FeatureId → Option Ty) : Option Ty → Option Ty
  | none => none
  | some ty => some (replaceThis levelFor ty)

end

theorem replaceThisList_eq_map (levelFor : FeatureId → Option Ty) (list : List Ty) :
    replaceThisList levelFor list = list.map (replaceThis levelFor) := by
  induction list with
  | nil => rfl
  | cons ty rest ih => rw [replaceThisList, ih, List.map_cons]

theorem replaceThis_eq (levelFor : FeatureId → Option Ty) (ty : Ty) :
    ty.replaceThis levelFor =
      (ty.standIn levelFor).getD (ty.mapChildren (replaceThis levelFor)) := by
  cases ty with
  | applied feature args outer isRef isThis =>
    rw [replaceThis, replaceThisList_eq_map, mapChildren]
    cases outer <;> rfl
  | _ => rfl

section

variable {levelFor : FeatureId → Option Ty} {ty : Ty}

theorem standIn_of_not_isThis (plain : ty.isThis = false) : ty.standIn levelFor = none := by
  cases ty with
  | applied feature args outer isRef isThis =>
    obtain rfl : isThis = false := plain
    rfl
  | _ => rfl

theorem replaceThis_of_idle (idle : ty.mentionsThis = false) : ty.replaceThis levelFor = ty := by
  induction ty using childrenInduction with
  | step ty ih =>
    obtain ⟨plain, childrenIdle⟩ := mentionsThis_eq_false_iff.mp idle
    rw [replaceThis_eq, standIn_of_not_isThis plain, Option.getD_none]
    exact mapChildren_eq_self fun child member =>
      ih child member (childrenIdle child member)

/-- What replaces enclosing instances has none. -/
def Settles (levelFor : FeatureId → Option Ty) : Prop :=
  ∀ feature level, levelFor feature = some level → level.mentionsThis = false

theorem Settles.standIn_idle (settles : Settles levelFor) {level : Ty}
    (replaced : ty.standIn levelFor = some level) : level.mentionsThis = false := by
  unfold standIn at replaced
  split at replaced
  · exact settles _ _ replaced
  · cases replaced

/-- Levels one after the other come to one replacement. -/
theorem Settles.replaceThis_replaceThis (settles : Settles levelFor)
    (further : FeatureId → Option Ty) (ty : Ty) :
    (ty.replaceThis levelFor).replaceThis further =
      ty.replaceThis fun feature => (levelFor feature).or (further feature) := by
  induction ty using childrenInduction with
  | step ty ih =>
    have together : ty.standIn (fun feature => (levelFor feature).or (further feature)) =
        (ty.standIn levelFor).or (ty.standIn further) := by
      unfold standIn
      split <;> rfl
    rw [replaceThis_eq levelFor ty, replaceThis_eq _ ty, together]
    cases replaced : ty.standIn levelFor with
    | some level =>
      rw [Option.getD_some, Option.some_or, Option.getD_some,
        replaceThis_of_idle (settles.standIn_idle replaced)]
    | none =>
      have further_standIn : (ty.mapChildren (replaceThis levelFor)).standIn further =
          ty.standIn further := by
        cases ty with
        | applied feature args outer isRef isThis => cases isThis <;> rfl
        | _ => rfl
      rw [Option.getD_none, Option.none_or, replaceThis_eq, further_standIn,
        mapChildren_mapChildren]
      exact congrArg _ (mapChildren_congr ih)

/-- No enclosing instance is left if each has a level. -/
theorem Settles.mentionsThis_replaceThis (settles : Settles levelFor)
    (replaced : ∀ part ∈ ty.parts, part.isThis = true → part.standIn levelFor ≠ none) :
    (ty.replaceThis levelFor).mentionsThis = false := by
  induction ty using childrenInduction with
  | step ty ih =>
    rw [replaceThis_eq]
    cases standsIn : ty.standIn levelFor with
    | some level => exact settles.standIn_idle standsIn
    | none =>
      rw [Option.getD_none, mentionsThis_eq_false_iff, isThis_mapChildren,
        children_mapChildren, List.forall_mem_map]
      refine ⟨?_, fun child member => ?_⟩
      · rw [Bool.eq_false_iff]
        exact fun isThis => replaced ty (self_mem_parts ty) isThis standsIn
      · exact ih child member fun part occurs =>
          replaced part (mem_parts_of_mem_children member occurs)

end

end FeatureTypes.Ty

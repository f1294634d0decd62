import FeatureTypes.Ty.Basic

/-!
# The parts of a type

Every type that occurs in a type, the type itself included, is one of its parts.
-/

namespace FeatureTypes.Ty

variable {property : Ty → FeatureId → List Ty → Prop} {feature : FeatureId} {part : Ty}

/-! ## Induction -/

/-- Induction on arguments and outer types. -/
@[induction_eliminator]
theorem inductionOn {motive : Ty → Prop} (error : motive .error) (void : motive .void)
    (undefined : motive .undefined) (formal : ∀ id boxed, motive (.formal id boxed))
    (applied : ∀ feature args outer isRef isThis,
      (∀ arg ∈ args, motive arg) →
      (∀ around, outer = some around → motive around) →
      motive (.applied feature args outer isRef isThis)) (ty : Ty) : motive ty := by
  -- The list and the option that `applied` nests get motives of their own.
  refine @Ty.rec motive (fun args => ∀ arg ∈ args, motive arg)
    (fun outer => ∀ around, outer = some around → motive around)
    error void undefined formal ?_ ?_ ?_ ?_ ?_ ty
  · intro feature args outer isRef isThis argsHold outerHolds
    exact applied feature args outer isRef isThis argsHold outerHolds
  · intro arg member
    cases member
  · intro head tail headHolds tailHolds arg member
    rcases List.mem_cons.mp member with rfl | inTail
    · exact headHolds
    · exact tailHolds arg inTail
  · intro around absent
    cases absent
  · intro inner innerHolds around present
    cases present
    exact innerHolds

/-! ## Parts -/

mutual

/-- The types that occur in a type, itself first. -/
def parts : Ty → List Ty
  | .applied feature args outer isRef isThis =>
    .applied feature args outer isRef isThis :: (partsOfList args ++ partsOfOption outer)
  | ty => [ty]

/-- The types that occur in one of a list of types. -/
def partsOfList : List Ty → List Ty
  | [] => []
  | ty :: rest => parts ty ++ partsOfList rest

/-- The types that occur in an optional type. -/
def partsOfOption : Option Ty → List Ty
  | none => []
  | some ty => parts ty

end

theorem mem_partsOfList {list : List Ty} :
    part ∈ partsOfList list ↔ ∃ ty ∈ list, part ∈ ty.parts := by
  induction list with
  | nil => simp [partsOfList]
  | cons ty rest ih => simp [partsOfList, ih]

theorem mem_partsOfOption {outer : Option Ty} :
    part ∈ partsOfOption outer ↔ ∃ ty, outer = some ty ∧ part ∈ ty.parts := by
  cases outer <;> simp [partsOfOption]

theorem self_mem_parts (ty : Ty) : ty ∈ ty.parts := by
  cases ty <;> simp [parts]

theorem mem_parts_applied {args : List Ty} {outer : Option Ty} {isRef isThis : Bool} :
    part ∈ (Ty.applied feature args outer isRef isThis).parts ↔
      part = .applied feature args outer isRef isThis ∨
        (∃ arg ∈ args, part ∈ arg.parts) ∨ ∃ around, outer = some around ∧ part ∈ around.parts := by
  simp [parts, mem_partsOfList, mem_partsOfOption]

theorem mem_parts_of_mem_args {arg : Ty} {args : List Ty} {outer : Option Ty} {isRef isThis : Bool}
    (member : arg ∈ args) (occurs : part ∈ arg.parts) :
    part ∈ (Ty.applied feature args outer isRef isThis).parts :=
  mem_parts_applied.mpr (Or.inr (Or.inl ⟨arg, member, occurs⟩))

theorem mem_parts_of_outer {around : Ty} {args : List Ty} {isRef isThis : Bool}
    (occurs : part ∈ around.parts) :
    part ∈ (Ty.applied feature args (some around) isRef isThis).parts :=
  mem_parts_applied.mpr (Or.inr (Or.inr ⟨around, rfl, occurs⟩))

/-- The arguments and the outer type of a type. -/
def children : Ty → List Ty
  | .applied _ args outer _ _ => args ++ outer.toList
  | _ => []

/-- Induction with one case for all types. -/
theorem childrenInduction {motive : Ty → Prop}
    (step : ∀ ty, (∀ child ∈ ty.children, motive child) → motive ty) (ty : Ty) : motive ty := by
  induction ty with
  | applied feature args outer isRef isThis argsHold outerHolds =>
    apply step
    intro child member
    rcases List.mem_append.mp member with inArgs | inOuter
    · exact argsHold child inArgs
    · exact outerHolds child (Option.mem_toList.mp inOuter)
  | _ => exact step _ (by simp [children])

theorem mem_parts_of_mem_children {child ty : Ty} (member : child ∈ ty.children)
    (occurs : part ∈ child.parts) : part ∈ ty.parts := by
  cases ty with
  | applied feature args outer isRef isThis =>
    rcases List.mem_append.mp member with inArgs | inOuter
    · exact mem_parts_of_mem_args inArgs occurs
    · rw [Option.mem_toList.mp inOuter]
      exact mem_parts_of_outer occurs
  | _ => cases member

/-! ## Outer types -/

/-- The type applies a feature, and so do its outer types, to arguments as `property` says. -/
inductive Chain (property : FeatureId → List Ty → Prop) : Ty → Prop
  | applied {feature : FeatureId} {args : List Ty} {outer : Option Ty} {isRef isThis : Bool}
      (holds : property feature args) (around : ∀ ty, outer = some ty → Chain property ty) :
      Chain property (.applied feature args outer isRef isThis)

theorem Chain.mono {property property' : FeatureId → List Ty → Prop} {ty : Ty}
    (chain : ty.Chain property)
    (weaker : ∀ feature args, property feature args → property' feature args) :
    ty.Chain property' := by
  induction chain with
  | applied holds _ ih =>
    exact .applied (weaker _ _ holds) ih

/-- Every argument of the type, or of an outer type, is related to the features that are applied
from there on outwards. -/
inductive Nests (property : Ty → FeatureId → List Ty → Prop) : Ty → Prop
  | applied {feature : FeatureId} {args : List Ty} {outer : Option Ty} {isRef isThis : Bool}
      (slots : ∀ slot ∈ args, (Ty.applied feature args outer isRef isThis).Chain (property slot))
      (around : ∀ ty, outer = some ty → Nests property ty) :
      Nests property (.applied feature args outer isRef isThis)

theorem Nests.mono {property' : Ty → FeatureId → List Ty → Prop} {ty : Ty}
    (nests : ty.Nests property)
    (weaker : ∀ slot feature args, property slot feature args → property' slot feature args) :
    ty.Nests property' := by
  induction nests with
  | applied slots _ ih =>
    exact .applied (fun slot member => (slots slot member).mono (weaker slot)) ih

theorem Nests.chain {ty : Ty} (nests : ty.Nests property) : ty.Chain fun _ _ => True := by
  induction nests with
  | applied _ _ ih => exact .applied trivial ih

end FeatureTypes.Ty

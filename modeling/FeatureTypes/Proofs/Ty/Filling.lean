import FeatureTypes.Feature.Basic
import FeatureTypes.Proofs.Ty.Replacement

/-!
# Filling in formals, open ones included

An open formal takes all actuals from its position on, but only at the end of a list of
arguments.
-/

namespace FeatureTypes

variable {features : FeatureId → Prop} {ty : Ty}

/-- An applied feature, unless one of its parts could not be typed. -/
def Ty.assemble (feature : FeatureId) (args : List Ty) (outer : Option Ty) (isRef isThis : Bool) :
    Ty :=
  if outer = some .error ∨ .error ∈ args then .error else .applied feature args outer isRef isThis

/-- What the formals of a feature give way to. -/
structure Filling where
  owner : FeatureId
  /-- Whether the formal at a position is open. -/
  isOpen : Nat → Bool
  actuals : List Ty

namespace Filling

variable (filling : Filling)

/-- What the formal at a position gives way to, alone. -/
def single (position : Nat) : Ty :=
  if filling.isOpen position then .error else filling.actuals.getD position .error

/-- The position of the open formal that the type is. -/
def openPosition? : Ty → Option Nat
  | .formal id _ =>
    if id.feature = filling.owner ∧ filling.isOpen id.index = true then some id.index else none
  | _ => none

/-- The position of the open formal that ends the list `ty :: rest`. -/
def trailing? (ty : Ty) (rest : List Ty) : Option Nat :=
  if rest.isEmpty then filling.openPosition? ty else none

mutual

/-- The type with the formals filled in. -/
def fill : Ty → Ty
  | .formal id boxed =>
    if id.feature = filling.owner then
      if boxed then (filling.single id.index).asRef else filling.single id.index
    else .formal id boxed
  | .applied feature args outer isRef isThis =>
    .assemble feature (fillList args) (fillOption outer) isRef isThis
  | .error => .error
  | .void => .void
  | .undefined => .undefined

/-- The arguments with the formals filled in. -/
def fillList : List Ty → List Ty
  | [] => []
  | ty :: rest =>
    match filling.trailing? ty rest with
    | some position => filling.actuals.drop position
    | none => fill ty :: fillList rest

/-- The outer type with the formals filled in. -/
def fillOption : Option Ty → Option Ty
  | none => none
  | some ty => some (fill ty)

end

theorem fillOption_eq_map (outer : Option Ty) :
    filling.fillOption outer = outer.map filling.fill := by
  cases outer <;> rfl

theorem fill_own {id : FormalId} (belongs : id.feature = filling.owner) (boxed : Bool) :
    filling.fill (.formal id boxed) =
      if boxed then (filling.single id.index).asRef else filling.single id.index :=
  if_pos belongs

theorem fill_foreign {id : FormalId} (foreign : id.feature ≠ filling.owner) (boxed : Bool) :
    filling.fill (.formal id boxed) = .formal id boxed :=
  if_neg foreign

theorem fill_applied (feature : FeatureId) (args : List Ty) (outer : Option Ty)
    (isRef isThis : Bool) :
    filling.fill (.applied feature args outer isRef isThis) =
      .assemble feature (filling.fillList args) (outer.map filling.fill) isRef isThis := by
  rw [fill, fillOption_eq_map]

theorem openPosition?_eq_none (apart : ¬ ty.BelongsTo filling.owner) :
    filling.openPosition? ty = none := by
  cases ty with
  | formal id boxed => exact if_neg fun belongs => apart belongs.1
  | _ => rfl

theorem trailing?_eq_none (position : filling.openPosition? ty = none) (rest : List Ty) :
    filling.trailing? ty rest = none := by
  rw [trailing?, position, ite_self]

/-- Without open formals a list is filled element by element. -/
theorem fillList_eq_map {list : List Ty} (closed : ∀ ty ∈ list, filling.openPosition? ty = none) :
    filling.fillList list = list.map filling.fill := by
  induction list with
  | nil => rfl
  | cons ty rest ih =>
    rw [List.forall_mem_cons] at closed
    rw [fillList, filling.trailing?_eq_none closed.1, ih closed.2, List.map_cons]

/-! ## Nothing to fill in -/

theorem fill_of_apart (apart : ∀ part ∈ ty.parts, ¬ part.BelongsTo filling.owner ∧ part ≠ .error) :
    filling.fill ty = ty := by
  induction ty with
  | formal id boxed => exact if_neg (apart _ (Ty.self_mem_parts _)).1
  | applied feature args outer isRef isThis argsEq outerEq =>
    have argApart := fun arg (member : arg ∈ args) part (occurs : part ∈ arg.parts) =>
      apart part (Ty.mem_parts_of_mem_args member occurs)
    have argsFilled : filling.fillList args = args := by
      rw [filling.fillList_eq_map fun arg member => filling.openPosition?_eq_none
        (argApart arg member arg (Ty.self_mem_parts arg)).1]
      exact (List.map_congr_left fun arg member => argsEq arg member (argApart arg member)).trans
        (List.map_id args)
    have outerFilled : outer.map filling.fill = outer := by
      cases outer with
      | none => rfl
      | some around =>
        exact congrArg some (outerEq around rfl fun part occurs =>
          apart part (Ty.mem_parts_of_outer occurs))
    rw [fill_applied, argsFilled, outerFilled, Ty.assemble, if_neg]
    rintro (isError | member)
    · subst isError
      exact (apart .error (Ty.mem_parts_of_outer (Ty.self_mem_parts _))).2 rfl
    · exact (argApart .error member .error (Ty.self_mem_parts _)).2 rfl
  | _ => rfl

end Filling

/-! ## Shifted formals -/

/-- The type with the formals of `source` turned into those of `target` that lie `offset`
positions further on. -/
def Ty.shift (source target : FeatureId) (offset : Nat) (ty : Ty) : Ty :=
  ty.replace fun id =>
    .formal (if id.feature = source then ⟨target, id.index + offset⟩ else id) false

theorem Ty.shift_own {id : FormalId} {source : FeatureId} (belongs : id.feature = source)
    (target : FeatureId) (offset : Nat) (boxed : Bool) :
    (Ty.formal id boxed).shift source target offset =
      .formal ⟨target, id.index + offset⟩ boxed := by
  cases boxed <;> simp [shift, replace, asRef, belongs]

theorem Ty.shift_applied (source target : FeatureId) (offset : Nat) (feature : FeatureId)
    (args : List Ty) (outer : Option Ty) (isRef isThis : Bool) :
    (Ty.applied feature args outer isRef isThis).shift source target offset =
      .applied feature (args.map (Ty.shift source target offset))
        (outer.map (Ty.shift source target offset)) isRef isThis :=
  Ty.replace_applied _ feature args outer isRef isThis

namespace Filling

/-- The formals of `mirror` are those of `filling`, one position further on. -/
structure MirroredBy (filling mirror : Filling) : Prop where
  isOpen_eq : ∀ position, mirror.isOpen (position + 1) = filling.isOpen position
  actuals_eq : ∃ first, mirror.actuals = first :: filling.actuals

variable {filling mirror : Filling} (mirrored : filling.MirroredBy mirror)

include mirrored

theorem MirroredBy.single_eq (position : Nat) :
    mirror.single (position + 1) = filling.single position := by
  obtain ⟨first, actualsEq⟩ := mirrored.actuals_eq
  rw [single, single, mirrored.isOpen_eq, actualsEq, List.getD_cons_succ]

theorem MirroredBy.trailing?_eq (own : ty.Over (·.feature = filling.owner) features)
    {rest rest' : List Ty} (sameEnd : rest'.isEmpty = rest.isEmpty) :
    mirror.trailing? (ty.shift filling.owner mirror.owner 1) rest' =
      (filling.trailing? ty rest).map (· + 1) := by
  have positionEq : mirror.openPosition? (ty.shift filling.owner mirror.owner 1) =
      (filling.openPosition? ty).map (· + 1) := by
    cases ty with
    | formal id boxed =>
      have belongs : id.feature = filling.owner := Ty.over_formal_iff.mp own
      rw [Ty.shift_own belongs, openPosition?, openPosition?]
      simp only [belongs, mirrored.isOpen_eq, eq_self, true_and]
      cases filling.isOpen id.index <;> rfl
    | _ => rfl
  rw [trailing?, trailing?, sameEnd, positionEq]
  split <;> rfl

/-- A companion fills shifted types as its origin fills the types themselves. -/
theorem MirroredBy.fill_shift (own : ty.Over (·.feature = filling.owner) features) :
    mirror.fill (ty.shift filling.owner mirror.owner 1) = filling.fill ty := by
  induction ty with
  | formal id boxed =>
    have belongs : id.feature = filling.owner := Ty.over_formal_iff.mp own
    rw [Ty.shift_own belongs, fill_own _ rfl, fill_own _ belongs, mirrored.single_eq]
  | applied feature args outer isRef isThis argsEq outerEq =>
    obtain ⟨_, argsOwn, outerOwn⟩ := Ty.over_applied_iff.mp own
    have argsFilled : mirror.fillList (args.map (Ty.shift filling.owner mirror.owner 1)) =
        filling.fillList args := by
      clear own
      induction args with
      | nil => rfl
      | cons arg rest ih =>
        rw [List.forall_mem_cons] at argsOwn argsEq
        rw [List.map_cons, fillList, fillList,
          mirrored.trailing?_eq argsOwn.1 List.isEmpty_map]
        cases filling.trailing? arg rest with
        | none =>
          simp only [Option.map_none]
          rw [argsEq.1 argsOwn.1, ih argsEq.2 argsOwn.2]
        | some position =>
          obtain ⟨first, actualsEq⟩ := mirrored.actuals_eq
          simp only [Option.map_some, actualsEq, List.drop_succ_cons]
    have outerFilled : (outer.map (Ty.shift filling.owner mirror.owner 1)).map mirror.fill =
        outer.map filling.fill := by
      cases outer with
      | none => rfl
      | some around => exact congrArg some (outerEq around rfl (outerOwn around rfl))
    rw [Ty.shift_applied, fill_applied, fill_applied, argsFilled, outerFilled]
  | _ => rfl

end Filling

end FeatureTypes

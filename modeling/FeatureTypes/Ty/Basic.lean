import FeatureTypes.Feature.Id

/-!
# Types

A type is an unknown or failed type, a formal, or a feature applied to actual
types.  This module gives types as trees.  The checker works on numbered types
(see `FeatureTypes.Ty.Store`), which unfold to these trees.
-/

namespace FeatureTypes

/-- A type in full. -/
inductive Ty where
  /-- The type of something that could not be typed. -/
  | error
  /-- The type of an expression that never returns. -/
  | void
  /-- A type that is not known yet. -/
  | undefined
  /-- A formal, held through a reference if `boxed`. -/
  | formal (id : FormalId) (boxed : Bool)
  /-- A feature applied to `args`, seen inside `outer`.  With `isThis` it is the
  dynamic type of the enclosing instance of that feature. -/
  | applied (feature : FeatureId) (args : List Ty) (outer : Option Ty) (isRef isThis : Bool)
  deriving Inhabited

namespace Ty

mutual

/-- Whether two types are the same tree. -/
def beq : Ty → Ty → Bool
  | .error, .error => true
  | .void, .void => true
  | .undefined, .undefined => true
  | .formal id boxed, .formal id' boxed' => id == id' && boxed == boxed'
  | .applied feature args outer isRef isThis, .applied feature' args' outer' isRef' isThis' =>
    feature == feature' && (beqList args args' && (beqOption outer outer'
      && (isRef == isRef' && isThis == isThis')))
  | _, _ => false

/-- Whether two lists of types agree. -/
def beqList : List Ty → List Ty → Bool
  | [], [] => true
  | ty :: rest, ty' :: rest' => beq ty ty' && beqList rest rest'
  | _, _ => false

/-- Whether two optional types agree. -/
def beqOption : Option Ty → Option Ty → Bool
  | none, none => true
  | some ty, some ty' => beq ty ty'
  | _, _ => false

end

mutual

theorem beq_eq_true_iff : (ty ty' : Ty) → (beq ty ty' = true ↔ ty = ty')
  | .applied feature args outer isRef isThis, ty' => by
    cases ty' <;> simp [beq, beqList_eq_true_iff args, beqOption_eq_true_iff outer]
  | .formal id boxed, ty' => by cases ty' <;> simp [beq]
  | .error, ty' => by cases ty' <;> simp [beq]
  | .void, ty' => by cases ty' <;> simp [beq]
  | .undefined, ty' => by cases ty' <;> simp [beq]

theorem beqList_eq_true_iff : (tys tys' : List Ty) → (beqList tys tys' = true ↔ tys = tys')
  | [], tys' => by cases tys' <;> simp [beqList]
  | ty :: rest, tys' => by
    cases tys' <;> simp [beqList, beq_eq_true_iff ty, beqList_eq_true_iff rest]

theorem beqOption_eq_true_iff : (ty ty' : Option Ty) → (beqOption ty ty' = true ↔ ty = ty')
  | none, ty' => by cases ty' <;> simp [beqOption]
  | some ty, ty' => by cases ty' <;> simp [beqOption, beq_eq_true_iff ty]

end

instance : DecidableEq Ty := fun ty ty' =>
  decidable_of_iff (beq ty ty' = true) (beq_eq_true_iff ty ty')

end Ty

end FeatureTypes

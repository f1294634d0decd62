import FeatureTypes.Proofs.Store.Denotes
import FeatureTypes.Proofs.Store.Flags

/-!
# Types with errors in them

A type is whole if the error type does not occur in it, and clean if it is whole or is the
error type itself.
-/

namespace FeatureTypes

/-- No part of the type is the error type. -/
def Ty.Whole (ty : Ty) : Prop :=
  ty.Over (fun _ => True) (fun _ => True)

theorem Ty.whole_applied_iff {feature : FeatureId} {args : List Ty} {outer : Option Ty}
    {isRef isThis : Bool} :
    (Ty.applied feature args outer isRef isThis).Whole ↔
      (∀ arg ∈ args, arg.Whole) ∧ ∀ around, outer = some around → around.Whole := by
  unfold Whole
  rw [over_applied_iff, true_and]

theorem Ty.Over.whole {formals : FormalId → Prop} {features : FeatureId → Prop} {ty : Ty}
    (covered : ty.Over formals features) : ty.Whole := by
  intro part occurs
  have holds := covered part occurs
  cases part with
  | error => exact holds
  | _ => trivial

namespace TypeStore

/-- The number is that of a type without errors. -/
def Whole (types : TypeStore) (id : TypeId) : Prop :=
  types.Holds id ∧ types.mentionsError id = false

/-- The number is that of the error type or of a type without errors. -/
def Clean (types : TypeStore) (id : TypeId) : Prop :=
  id = .error ∨ types.Whole id

instance (types : TypeStore) (id : TypeId) : Decidable (types.Whole id) :=
  inferInstanceAs (Decidable (_ ∧ _))

instance (types : TypeStore) (id : TypeId) : Decidable (types.Clean id) :=
  inferInstanceAs (Decidable (_ ∨ _))

variable {types larger : TypeStore} {id : TypeId}

/-- The stored fact tells whether there is an error in the tree. -/
theorem whole_iff (coherent : types.Coherent) :
    types.Whole id ↔ types.Holds id ∧ (types.tree id).Whole := by
  refine and_congr_right fun held => ?_
  have factEq : types.mentionsError id =
      (types.tree id).parts.any fun part =>
        decide (¬ part.RootOver (fun _ => True) fun _ => True) := by
    refine fact_flags_eq_any (fun _ _ => rfl) ?_ coherent held
    intro layer unfold
    cases layer <;> rfl
  rw [factEq, List.any_eq_false]
  refine forall₂_congr fun part _ => ?_
  rw [decide_eq_true_eq, not_not]

namespace Whole

theorem of_denotes {ty : Ty} (coherent : types.Coherent) (denotes : types.Denotes id ty)
    (whole : ty.Whole) : types.Whole id :=
  (whole_iff coherent).mpr ⟨denotes.1, denotes.2.symm ▸ whole⟩

theorem denotes (whole : types.Whole id) : types.Denotes id (types.tree id) :=
  ⟨whole.1, rfl⟩

theorem of_extends (whole : types.Whole id) (extension : types.Extends larger) :
    larger.Whole id := by
  refine ⟨extension.holds whole.1, ?_⟩
  rw [mentionsError, extension.flags_eq whole.1]
  exact whole.2

theorem of_larger (whole : larger.Whole id) (held : types.Holds id)
    (extension : types.Extends larger) : types.Whole id := by
  refine ⟨held, ?_⟩
  rw [mentionsError, ← extension.flags_eq held]
  exact whole.2

theorem child (whole : types.Whole id) (coherent : types.Coherent) {child : TypeId}
    (member : child ∈ (types.node id).children) : types.Whole child := by
  have held := coherent.child_holds whole.1 member
  refine (whole_iff coherent).mpr ⟨held, ?_⟩
  have tree := ((whole_iff coherent).mp whole).2
  rw [tree_eq coherent whole.1] at tree
  refine tree.child ?_
  rw [Node.children_toTy]
  exact List.mem_map_of_mem member

end Whole

namespace Clean

theorem held (clean : types.Clean id) (canonical : types.Canonical) : types.Holds id := by
  rcases clean with rfl | whole
  · exact canonical.error_exact.1
  · exact whole.1

theorem of_extends (clean : types.Clean id) (extension : types.Extends larger) : larger.Clean id :=
  clean.imp_right fun whole => whole.of_extends extension

theorem of_larger (clean : larger.Clean id) (held : types.Holds id)
    (extension : types.Extends larger) : types.Clean id :=
  clean.imp_right fun whole => whole.of_larger held extension

theorem whole (clean : types.Clean id) (typed : id ≠ .error) : types.Whole id :=
  clean.resolve_left typed

theorem whole_of_node (clean : types.Clean id) (canonical : types.Canonical)
    (typed : types.node id ≠ .error) : types.Whole id := by
  refine clean.whole ?_
  rintro rfl
  exact typed canonical.error_exact.2

end Clean

end TypeStore

end FeatureTypes

import FeatureTypes.Proofs.Store.Tree

/-!
# Stored facts about types
-/

namespace FeatureTypes

namespace Ty

/-- Whether the type is a formal. -/
def isFormal : Ty → Bool
  | .formal _ _ => true
  | _ => false

/-- Whether the type is that of an enclosing instance. -/
def isThis : Ty → Bool
  | .applied _ _ _ _ isThis => isThis
  | _ => false

/-- Whether a formal occurs in the type. -/
def mentionsFormal (ty : Ty) : Bool :=
  ty.parts.any isFormal

/-- Whether the type of an enclosing instance occurs in the type. -/
def mentionsThis (ty : Ty) : Bool :=
  ty.parts.any isThis

theorem any_parts (test : Ty → Bool) (ty : Ty) :
    ty.parts.any test = (test ty || ty.children.any fun child => child.parts.any test) := by
  rw [Bool.eq_iff_iff, Bool.or_eq_true]
  simp only [List.any_eq_true]
  constructor
  · rintro ⟨part, member, holds⟩
    cases ty with
    | applied feature args outer isRef isThis =>
      rcases mem_parts_applied.mp member with rfl | ⟨arg, inArgs, occurs⟩ | ⟨around, rfl, occurs⟩
      · exact Or.inl holds
      · exact Or.inr ⟨arg, List.mem_append_left _ inArgs, part, occurs, holds⟩
      · exact Or.inr ⟨around, List.mem_append_right _ (by simp), part, occurs, holds⟩
    | _ =>
      rw [List.mem_singleton.mp member] at holds
      exact Or.inl holds
  · rintro (holds | ⟨child, inChildren, part, occurs, holds⟩)
    · exact ⟨ty, self_mem_parts ty, holds⟩
    · exact ⟨part, mem_parts_of_mem_children inChildren occurs, holds⟩

end Ty

namespace Node

theorem children_toTy (unfold : TypeId → Ty) (layer : Node) :
    (layer.toTy unfold).children = layer.children.map unfold := by
  cases layer with
  | applied feature args outer isRef isThis => cases outer <;> simp [toTy, children, Ty.children]
  | _ => rfl

/-- The facts about a layer without its parts. -/
def ownFlags : Node → Flags
  | .error => { mentionsError := true }
  | .void => {}
  | .undefined => { mentionsUndefined := true }
  | .formal _ _ => { mentionsFormal := true }
  | .applied _ _ _ _ isThis => { mentionsThis := isThis }

end Node

namespace TypeStore

variable {store : TypeStore} {fact : Flags → Bool} {test : Ty → Bool}

theorem flagsOf_eq_foldl (store : TypeStore) (layer : Node) :
    store.flagsOf layer =
      layer.children.foldl (fun flags child => flags.merge (store.flags child)) layer.ownFlags := by
  cases layer <;> rfl

private theorem fact_foldl
    (merges : ∀ flags other, fact (flags.merge other) = (fact flags || fact other))
    (children : List TypeId) (flags : Flags) :
    fact (children.foldl (fun flags child => flags.merge (store.flags child)) flags) =
      (fact flags || children.any fun child => fact (store.flags child)) := by
  induction children generalizing flags with
  | nil => simp
  | cons child rest ih =>
    rw [List.foldl_cons, ih, merges, List.any_cons, Bool.or_assoc]

/-- A fact is kept just if some part of the tree shows it. -/
theorem fact_flags_eq_any
    (merges : ∀ flags other, fact (flags.merge other) = (fact flags || fact other))
    (own : ∀ (layer : Node) (unfold : TypeId → Ty), fact layer.ownFlags = test (layer.toTy unfold))
    (coherent : store.Coherent) {id : TypeId} (held : store.Holds id) :
    fact (store.flags id) = (store.tree id).parts.any test := by
  obtain ⟨position⟩ := id
  induction position using Nat.strongRecOn with
  | ind position ih =>
    rw [coherent.flags_exact _ held, flagsOf_eq_foldl, fact_foldl merges,
      tree_eq coherent held, Ty.any_parts, Node.children_toTy, List.any_map, own _ store.tree]
    congr 1
    rw [Bool.eq_iff_iff, List.any_eq_true, List.any_eq_true]
    refine exists_congr fun child => and_congr_right fun member => ?_
    have childEq := ih child.index (coherent.child_lt _ held child member)
      (coherent.child_holds held member)
    rw [Function.comp_apply, ← childEq]

theorem mentionsFormal_eq (coherent : store.Coherent) {id : TypeId} (held : store.Holds id) :
    store.mentionsFormal id = (store.tree id).mentionsFormal := by
  refine fact_flags_eq_any (fun _ _ => rfl) ?_ coherent held
  intro layer unfold
  cases layer <;> rfl

theorem mentionsThis_eq (coherent : store.Coherent) {id : TypeId} (held : store.Holds id) :
    store.mentionsThis id = (store.tree id).mentionsThis := by
  refine fact_flags_eq_any (fun _ _ => rfl) ?_ coherent held
  intro layer unfold
  cases layer <;> rfl

end TypeStore

end FeatureTypes

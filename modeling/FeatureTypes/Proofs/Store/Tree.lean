import FeatureTypes.Proofs.Store.Canonical
import FeatureTypes.Proofs.Ty.Parts

/-!
# Unfolding numbers
-/

namespace FeatureTypes

/-- The type that a layer stands for, given what its parts stand for. -/
def Node.toTy (unfold : TypeId → Ty) : Node → Ty
  | .error => .error
  | .void => .void
  | .undefined => .undefined
  | .formal id boxed => .formal id boxed
  | .applied feature args outer isRef isThis =>
    .applied feature (args.map unfold) (outer.map unfold) isRef isThis

theorem Node.toTy_congr {unfold unfold' : TypeId → Ty} {layer : Node}
    (agree : ∀ child ∈ layer.children, unfold child = unfold' child) :
    layer.toTy unfold = layer.toTy unfold' := by
  cases layer with
  | applied feature args outer isRef isThis =>
    have argsEq : args.map unfold = args.map unfold' := by
      apply List.map_congr_left
      intro arg member
      exact agree arg (List.mem_append_left _ member)
    have outerEq : outer.map unfold = outer.map unfold' := by
      cases outer with
      | none => rfl
      | some around =>
        have member :
            around ∈ (Node.applied feature args (some around) isRef isThis).children :=
          List.mem_append_right _ (by simp)
        simp [agree around member]
    simp only [toTy, argsEq, outerEq]
  | _ => rfl

theorem Node.mem_parts_toTy {unfold : TypeId → Ty} {layer : Node} {child : TypeId} {part : Ty}
    (member : child ∈ layer.children) (occurs : part ∈ (unfold child).parts) :
    part ∈ (layer.toTy unfold).parts := by
  cases layer with
  | applied feature args outer isRef isThis =>
    rcases List.mem_append.mp member with inArgs | inOuter
    · exact Ty.mem_parts_of_mem_args (List.mem_map_of_mem inArgs) occurs
    · rw [Option.mem_toList.mp inOuter]
      exact Ty.mem_parts_of_outer occurs
  | _ => cases member

namespace TypeStore

variable {store larger : TypeStore} {id left right : TypeId} {layer : Node}

theorem treeWithin_succ (store : TypeStore) (depth : Nat) (id : TypeId) :
    store.treeWithin (depth + 1) id = (store.node id).toTy (store.treeWithin depth) := by
  rw [treeWithin]
  cases store.node id <;> rfl

private theorem treeWithin_eq (coherent : store.Coherent) :
    ∀ (depth depth' : Nat) (id : TypeId),
      store.Holds id → id.index < depth → id.index < depth' →
        store.treeWithin depth id = store.treeWithin depth' id := by
  intro depth
  induction depth with
  | zero => intro _ id _ bound; exact absurd bound (Nat.not_lt_zero _)
  | succ depth ih =>
    intro depth' id held bound bound'
    obtain ⟨depth', rfl⟩ : ∃ smaller, depth' = smaller + 1 := ⟨depth' - 1, by omega⟩
    rw [treeWithin_succ, treeWithin_succ]
    apply Node.toTy_congr
    intro child member
    have smaller := coherent.child_lt id held child member
    exact ih depth' child (coherent.child_holds held member)
      (by omega) (by omega)

/-- The root of the tree is the layer of the number. -/
theorem tree_eq (coherent : store.Coherent) (held : store.Holds id) :
    store.tree id = (store.node id).toTy store.tree := by
  rw [tree, treeWithin_succ]
  apply Node.toTy_congr
  intro child member
  have smaller := coherent.child_lt id held child member
  exact treeWithin_eq coherent _ _ child (coherent.child_holds held member) smaller
    (Nat.lt_succ_self _)

/-- Added types do not matter. -/
theorem tree_eq_of_extends (coherent : store.Coherent) (largerCoherent : larger.Coherent)
    (extension : store.Extends larger) (held : store.Holds id) :
    larger.tree id = store.tree id := by
  obtain ⟨position⟩ := id
  induction position using Nat.strongRecOn with
  | ind position ih =>
    rw [tree_eq coherent held, tree_eq largerCoherent (extension.holds held),
      extension.node_eq held]
    apply Node.toTy_congr
    intro child member
    exact ih child.index (coherent.child_lt _ held child member)
      (coherent.child_holds held member)

theorem eq_of_map_eq {ids ids' : List TypeId} {unfold : TypeId → Ty}
    (injective : ∀ id ∈ ids, ∀ id' ∈ ids', unfold id = unfold id' → id = id')
    (same : ids.map unfold = ids'.map unfold) : ids = ids' := by
  induction ids generalizing ids' with
  | nil => cases ids' <;> simp at same ⊢
  | cons id rest ih =>
    cases ids' with
    | nil => simp at same
    | cons id' rest' =>
      simp only [List.map_cons, List.cons.injEq] at same
      rw [injective id List.mem_cons_self id' List.mem_cons_self same.1]
      rw [ih (fun other member other' member' =>
        injective other (List.mem_cons_of_mem _ member) other'
          (List.mem_cons_of_mem _ member')) same.2]

private theorem node_eq_of_toTy_eq {layer layer' : Node} {unfold : TypeId → Ty}
    (injective : ∀ child ∈ layer.children, ∀ child' ∈ layer'.children,
      unfold child = unfold child' → child = child')
    (same : layer.toTy unfold = layer'.toTy unfold) : layer = layer' := by
  cases layer with
  | applied feature args outer isRef isThis =>
    cases layer' with
    | applied feature' args' outer' isRef' isThis' =>
      simp only [Node.toTy, Ty.applied.injEq] at same
      obtain ⟨featureEq, argsEq, outerEq, refEq, thisEq⟩ := same
      have argsEq : args = args' :=
        eq_of_map_eq (fun arg member arg' member' =>
          injective arg (List.mem_append_left _ member) arg'
            (List.mem_append_left _ member')) argsEq
      have outerEq : outer = outer' := by
        cases outer with
        | none => cases outer' <;> simp at outerEq ⊢
        | some around =>
          cases outer' with
          | none => simp at outerEq
          | some around' =>
            have aroundEq : unfold around = unfold around' := by simpa using outerEq
            rw [injective around (List.mem_append_right _ (by simp)) around'
              (List.mem_append_right _ (by simp)) aroundEq]
      rw [featureEq, argsEq, outerEq, refEq, thisEq]
    | _ => simp [Node.toTy] at same
  | formal formal boxed => cases layer' <;> simp [Node.toTy] at same ⊢; exact same
  | _ => cases layer' <;> simp [Node.toTy] at same ⊢

/-- No tree is stored twice. -/
theorem tree_injective (coherent : store.Coherent) (leftHeld : store.Holds left)
    (rightHeld : store.Holds right) (same : store.tree left = store.tree right) : left = right := by
  obtain ⟨position⟩ := left
  induction position using Nat.strongRecOn generalizing right with
  | ind position ih =>
    apply coherent.node_injective leftHeld rightHeld
    rw [tree_eq coherent leftHeld, tree_eq coherent rightHeld] at same
    refine node_eq_of_toTy_eq ?_ same
    intro child member child' member' sameChild
    exact ih child.index (coherent.child_lt _ leftHeld child member)
      (coherent.child_holds rightHeld member') (coherent.child_holds leftHeld member) sameChild

theorem tree_inj (coherent : store.Coherent) (leftHeld : store.Holds left)
    (rightHeld : store.Holds right) : store.tree left = store.tree right ↔ left = right :=
  ⟨tree_injective coherent leftHeld rightHeld, fun same => same ▸ rfl⟩

theorem tree_intern (coherent : store.Coherent) (parts : store.HoldsParts layer) :
    (store.intern layer).2.tree (store.intern layer).1 = layer.toTy store.tree := by
  obtain ⟨held, layerEq⟩ := intern_holds coherent layer
  have afterwards := intern_coherent coherent parts
  rw [tree_eq afterwards held, layerEq]
  apply Node.toTy_congr
  intro child member
  exact tree_eq_of_extends coherent afterwards (intern_extends store layer) (parts child member)

namespace Canonical

theorem tree_error (canonical : store.Canonical) : store.tree .error = .error := by
  rw [tree_eq canonical.toCoherent canonical.error_exact.1, canonical.error_exact.2, Node.toTy]

theorem tree_void (canonical : store.Canonical) : store.tree .void = .void := by
  rw [tree_eq canonical.toCoherent canonical.void_exact.1, canonical.void_exact.2, Node.toTy]

theorem tree_undefined (canonical : store.Canonical) : store.tree .undefined = .undefined := by
  rw [tree_eq canonical.toCoherent canonical.undefined_exact.1, canonical.undefined_exact.2,
    Node.toTy]

end Canonical

end TypeStore

end FeatureTypes

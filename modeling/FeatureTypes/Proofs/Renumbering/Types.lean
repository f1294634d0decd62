import FeatureTypes.Proofs.Coupling.Lists
import FeatureTypes.Proofs.Store.Denotes
import FeatureTypes.Proofs.Store.Flags

/-!
# Types under other numbers

Numbers of two stores match if they stand for the same type.
-/

namespace FeatureTypes

theorem Node.Related.children_related {same : TypeId → TypeId → Prop} {layer layer' : Node}
    (related : Node.Related same layer layer') :
    List.Forall₂ same layer.children layer'.children ∧ layer'.ownFlags = layer.ownFlags := by
  cases related with
  | applied feature isRef isThis sameArgs sameOuter =>
    refine ⟨List.rel_append sameArgs ?_, rfl⟩
    cases sameOuter with
    | none => exact .nil
    | some around => exact .cons around .nil
  | _ => exact ⟨.nil, rfl⟩

/-- The first number stands for the same type in the first store as the second number in the
second store. -/
def TypeStore.Matches (types types' : TypeStore) (ty ty' : TypeId) : Prop :=
  types.Holds ty ∧ types'.Holds ty' ∧ types'.tree ty' = types.tree ty

instance (types types' : TypeStore) (ty ty' : TypeId) : Decidable (types.Matches types' ty ty') :=
  inferInstanceAs (Decidable (_ ∧ _ ∧ _))

namespace TypeStore

variable {types types' larger larger' : TypeStore} {ty ty' : TypeId}

theorem Matches.symm (matching : types.Matches types' ty ty') : types'.Matches types ty' ty :=
  ⟨matching.2.1, matching.1, matching.2.2.symm⟩

theorem Matches.of_extends (matching : types.Matches types' ty ty') (coherent : types.Coherent)
    (coherent' : types'.Coherent) (largerCoherent : larger.Coherent)
    (largerCoherent' : larger'.Coherent) (extension : types.Extends larger)
    (extension' : types'.Extends larger') : larger.Matches larger' ty ty' := by
  refine ⟨extension.holds matching.1, extension'.holds matching.2.1, ?_⟩
  rw [tree_eq_of_extends coherent largerCoherent extension matching.1,
    tree_eq_of_extends coherent' largerCoherent' extension' matching.2.1, matching.2.2]

/-- Numbers match one to one. -/
theorem Matches.eq_iff {other other' : TypeId} (matching : types.Matches types' ty ty')
    (matchingOther : types.Matches types' other other') (coherent : types.Coherent)
    (coherent' : types'.Coherent) : ty = other ↔ ty' = other' := by
  rw [← tree_inj coherent matching.1 matchingOther.1,
    ← tree_inj coherent' matching.2.1 matchingOther.2.1, matching.2.2, matchingOther.2.2]

section

variable (canonical : types.Canonical) (canonical' : types'.Canonical)

include canonical canonical'

theorem matches_error :
    types.Matches types' .error .error :=
  ⟨canonical.error_exact.1, canonical'.error_exact.1,
    canonical'.tree_error.trans canonical.tree_error.symm⟩

theorem matches_void :
    types.Matches types' .void .void :=
  ⟨canonical.void_exact.1, canonical'.void_exact.1,
    canonical'.tree_void.trans canonical.tree_void.symm⟩

theorem matches_undefined :
    types.Matches types' .undefined .undefined :=
  ⟨canonical.undefined_exact.1, canonical'.undefined_exact.1,
    canonical'.tree_undefined.trans canonical.tree_undefined.symm⟩

end

/-! ## Layers -/

theorem forall₂_matches_iff {list list' : List TypeId} :
    List.Forall₂ (types.Matches types') list list' ↔
      (∀ ty ∈ list, types.Holds ty) ∧ (∀ ty ∈ list', types'.Holds ty) ∧
        list'.map types'.tree = list.map types.tree := by
  constructor
  · intro matching
    induction matching with
    | nil => simp
    | cons head _ ih =>
      obtain ⟨held, held', treesEq⟩ := ih
      refine ⟨List.forall_mem_cons.mpr ⟨head.1, held⟩,
        List.forall_mem_cons.mpr ⟨head.2.1, held'⟩, ?_⟩
      rw [List.map_cons, List.map_cons, head.2.2, treesEq]
  · rintro ⟨held, held', treesEq⟩
    induction list generalizing list' with
    | nil =>
      obtain rfl := List.map_eq_nil_iff.mp treesEq
      exact .nil
    | cons ty rest ih =>
      cases list' with
      | nil => cases treesEq
      | cons ty' rest' =>
        rw [List.forall_mem_cons] at held held'
        obtain ⟨headEq, restEq⟩ := List.cons.inj treesEq
        exact .cons ⟨held.1, held'.1, headEq⟩ (ih held.2 held'.2 restEq)

theorem option_rel_matches_iff {outer outer' : Option TypeId} :
    Option.Rel (types.Matches types') outer outer' ↔
      (∀ ty ∈ outer, types.Holds ty) ∧ (∀ ty ∈ outer', types'.Holds ty) ∧
        outer'.map types'.tree = outer.map types.tree := by
  constructor
  · intro matching
    cases matching with
    | none => simp
    | some matching => simpa [Matches] using matching
  · rintro ⟨held, held', treesEq⟩
    cases outer with
    | none =>
      obtain rfl := Option.map_eq_none_iff.mp treesEq
      exact .none
    | some ty =>
      cases outer' with
      | none => cases treesEq
      | some ty' => exact .some ⟨held ty rfl, held' ty' rfl, Option.some.inj treesEq⟩

/-- Layers correspond if they are the root of one tree. -/
theorem node_related_matches_iff {layer layer' : Node} :
    Node.Related (types.Matches types') layer layer' ↔
      types.HoldsParts layer ∧ types'.HoldsParts layer' ∧
        layer'.toTy types'.tree = layer.toTy types.tree := by
  constructor
  · intro related
    cases related with
    | applied feature isRef isThis sameArgs sameOuter =>
      obtain ⟨argsHeld, argsHeld', argsEq⟩ := forall₂_matches_iff.mp sameArgs
      obtain ⟨outerHeld, outerHeld', outerEq⟩ := option_rel_matches_iff.mp sameOuter
      refine ⟨?_, ?_, by rw [Node.toTy, Node.toTy, argsEq, outerEq]⟩
      · exact List.forall_mem_append.mpr
          ⟨argsHeld, fun around member => outerHeld around (Option.mem_toList.mp member)⟩
      · exact List.forall_mem_append.mpr
          ⟨argsHeld', fun around member => outerHeld' around (Option.mem_toList.mp member)⟩
    | _ => exact ⟨by simp [HoldsParts, Node.children], by simp [HoldsParts, Node.children], rfl⟩
  · rintro ⟨held, held', treesEq⟩
    cases layer with
    | applied feature args outer isRef isThis =>
      cases layer' with
      | applied feature' args' outer' isRef' isThis' =>
        simp only [Node.toTy, Ty.applied.injEq] at treesEq
        obtain ⟨rfl, argsEq, outerEq, rfl, rfl⟩ := treesEq
        obtain ⟨argsHeld, outerHeld⟩ := List.forall_mem_append.mp held
        obtain ⟨argsHeld', outerHeld'⟩ := List.forall_mem_append.mp held'
        refine .applied _ _ _ (forall₂_matches_iff.mpr ⟨argsHeld, argsHeld', argsEq⟩)
          (option_rel_matches_iff.mpr ⟨?_, ?_, outerEq⟩)
        · exact fun around present => outerHeld around (Option.mem_toList.mpr present)
        · exact fun around present => outerHeld' around (Option.mem_toList.mpr present)
      | _ => cases treesEq
    | formal id boxed =>
      cases layer' with
      | formal id' boxed' =>
        simp only [Node.toTy, Ty.formal.injEq] at treesEq
        obtain ⟨rfl, rfl⟩ := treesEq
        exact .formal _ _
      | _ => cases treesEq
    | error =>
      cases layer' with
      | error => exact .error
      | _ => cases treesEq
    | void =>
      cases layer' with
      | void => exact .void
      | _ => cases treesEq
    | undefined =>
      cases layer' with
      | undefined => exact .undefined
      | _ => cases treesEq

theorem Matches.layer (matching : types.Matches types' ty ty') (coherent : types.Coherent)
    (coherent' : types'.Coherent) :
    Node.Related (types.Matches types') (types.node ty) (types'.node ty') := by
  refine node_related_matches_iff.mpr ⟨fun _ => coherent.child_holds matching.1,
    fun _ => coherent'.child_holds matching.2.1, ?_⟩
  rw [← tree_eq coherent matching.1, ← tree_eq coherent' matching.2.1, matching.2.2]

theorem matches_intern (canonical : types.Canonical) (canonical' : types'.Canonical)
    {layer layer' : Node} (related : Node.Related (types.Matches types') layer layer') :
    (types.intern layer).2.Matches (types'.intern layer').2 (types.intern layer).1
      (types'.intern layer').1 := by
  obtain ⟨parts, parts', treesEq⟩ := node_related_matches_iff.mp related
  have denotes := (makes_intern canonical parts).denotes
  have denotes' := (makes_intern canonical' parts').denotes
  exact ⟨denotes.1, denotes'.1, denotes'.2.trans (treesEq.trans denotes.2.symm)⟩

theorem Matches.flags_eq (matching : types.Matches types' ty ty') (coherent : types.Coherent)
    (coherent' : types'.Coherent) : types'.flags ty' = types.flags ty := by
  obtain ⟨position⟩ := ty
  induction position using Nat.strongRecOn generalizing ty' with
  | ind position ih =>
    obtain ⟨children, ownEq⟩ := (matching.layer coherent coherent').children_related
    have smaller := coherent.child_lt _ matching.1
    rw [coherent.flags_exact _ matching.1, coherent'.flags_exact _ matching.2.1,
      flagsOf_eq_foldl, flagsOf_eq_foldl, ownEq]
    generalize (types.node ⟨position⟩).ownFlags = flags
    generalize (types.node ⟨position⟩).children = list at children smaller
    generalize (types'.node ty').children = list' at children
    clear ownEq matching
    induction children generalizing flags with
    | nil => rfl
    | @cons child child' _ _ childMatches _ foldEq =>
      rw [List.forall_mem_cons] at smaller
      obtain ⟨childPosition⟩ := child
      rw [List.foldl_cons, List.foldl_cons,
        ih childPosition smaller.1 childMatches]
      exact foldEq _ smaller.2

end TypeStore

end FeatureTypes

import FeatureTypes.Proofs.Lockstep.Marked
import FeatureTypes.Proofs.Store.Order

/-!
# The order of types in a checker

In every reachable checker the order of types is total and strict, and it ties on
equal numbers alone.  The order up to outer types is a total preorder: it also ties
where two types that apply a feature differ in nothing but their own outer types.
-/

namespace FeatureTypes.Checker

/-- The type is stored, and every feature in it is declared. -/
def Knows (checker : Checker) (ty : TypeId) : Prop :=
  checker.types.Holds ty ∧ (checker.types.tree ty).Declared checker.features

instance (checker : Checker) (ty : TypeId) : Decidable (checker.Knows ty) :=
  inferInstanceAs (Decidable (_ < _ ∧ ∀ _ ∈ _, ∀ _ ∈ _, _ < _))

theorem run_compare (checker : Checker) (left right : TypeId) :
    (compare left right).run checker =
      checker.answer (checker.types.compare checker.features left right) := by
  simp only [compare, EStateM.run_bind, EStateM.run_get, run_readFeatures]

/-- Types whose features are declared are totally ordered, and only a type and
itself tie. -/
theorem Reachable.compare_total
    {checker : Checker} (reachable : checker.Reachable) :
    ∃ order : TypeId → TypeId → Ordering,
      (∀ a b, checker.Knows a → checker.Knows b →
        (compare a b).run checker = .ok (order a b) checker) ∧
      (∀ a b, checker.Knows a → checker.Knows b → (order a b = .eq ↔ a = b)) ∧
      (∀ a b, checker.Knows a → checker.Knows b → order b a = (order a b).swap) ∧
      ∀ a b c, checker.Knows a → checker.Knows b → checker.Knows c →
        order a b = .lt → order b c = .lt → order a c = .lt := by
  have wellFormed := reachable.sound.toWellFormed
  refine ⟨fun a b => Ty.order checker.features (checker.types.tree a) (checker.types.tree b),
    ?_, ?_, ?_, ?_⟩
  · intro a b aKnown bKnown
    rw [run_compare, TypeStore.compare,
      TypeStore.compareWithin_eq wellFormed.types_canonical.toCoherent aKnown.1 bKnown.1
        aKnown.2 bKnown.2 (Nat.lt_succ_self a.index), answer]
  · intro a b aKnown bKnown
    rw [Ty.order_eq_iff,
      TypeStore.tree_inj wellFormed.types_canonical.toCoherent aKnown.1 bKnown.1]
  · intro a b _ _
    exact Ty.order_swap checker.features _ _
  · intro a b c _ _ _
    exact (Ty.order_consistent checker.features _ _ _).lt_trans

/-- Three types that apply one feature: to its own formal, to a type without formals,
and by value. -/
def listOperations : List Operation :=
  [.declare (.feature "any" none true), .construct (.instantiate ⟨1⟩ []),
    .declare (.feature "list" none true), .declare (.formal ⟨2⟩ "T" ⟨3⟩ false {}),
    .construct (.instantiate ⟨2⟩ [⟨3⟩]), .construct (.instantiate ⟨2⟩ [⟨4⟩]),
    .construct (.asValue ⟨5⟩)]

theorem Reachable.compare_total_lists :
    let checker := afterAll listOperations {}
    checker.Reachable ∧ checker.Knows ⟨6⟩ ∧ checker.Knows ⟨5⟩ ∧ checker.Knows ⟨7⟩ ∧
      ∃ order : TypeId → TypeId → Ordering,
        (compare ⟨6⟩ ⟨5⟩).run checker = .ok (order ⟨6⟩ ⟨5⟩) checker ∧
        (compare ⟨5⟩ ⟨7⟩).run checker = .ok (order ⟨5⟩ ⟨7⟩) checker ∧
        order ⟨6⟩ ⟨5⟩ = .lt ∧ order ⟨5⟩ ⟨7⟩ = .lt ∧ order ⟨6⟩ ⟨7⟩ = .lt ∧
        order ⟨5⟩ ⟨6⟩ = .gt ∧ order ⟨5⟩ ⟨5⟩ = .eq := by
  intro checker
  have reachable : checker.Reachable := (Reachable.initial {} {}).steps (by decide +kernel)
  have known : checker.Knows ⟨6⟩ ∧ checker.Knows ⟨5⟩ ∧ checker.Knows ⟨7⟩ := by decide +kernel
  obtain ⟨order, compares, ties, swaps, transitive⟩ := reachable.compare_total
  have first := compares ⟨6⟩ ⟨5⟩ known.1 known.2.1
  have second := compares ⟨5⟩ ⟨7⟩ known.2.1 known.2.2
  have firstRun : (compare ⟨6⟩ ⟨5⟩).run checker = .ok .lt checker := by
    rw [run_compare, show checker.types.compare checker.features ⟨6⟩ ⟨5⟩ = .ok .lt by
      decide +kernel, answer]
  have secondRun : (compare ⟨5⟩ ⟨7⟩).run checker = .ok .lt checker := by
    rw [run_compare, show checker.types.compare checker.features ⟨5⟩ ⟨7⟩ = .ok .lt by
      decide +kernel, answer]
  have firstLt : order ⟨6⟩ ⟨5⟩ = .lt :=
    (EStateM.Result.ok.inj (first.symm.trans firstRun)).1
  have secondLt : order ⟨5⟩ ⟨7⟩ = .lt :=
    (EStateM.Result.ok.inj (second.symm.trans secondRun)).1
  refine ⟨reachable, known.1, known.2.1, known.2.2, order, first, second, firstLt, secondLt,
    transitive _ _ _ known.1 known.2.1 known.2.2 firstLt secondLt, ?_, ?_⟩
  · rw [swaps _ _ known.1 known.2.1, firstLt, Ordering.swap_lt]
  · exact (ties _ _ known.2.1 known.2.1).mpr rfl

/-! ## Up to outer types -/

theorem run_compareIgnoringOuter (checker : Checker) (left right : TypeId) :
    (compareIgnoringOuter left right).run checker =
      checker.answer (checker.types.compareIgnoringOuter checker.features left right) := by
  simp only [compareIgnoringOuter, EStateM.run_bind, EStateM.run_get, run_readFeatures]

/-- Up to their own outer types, types whose features are declared are totally
preordered.  Types tie if they are the same or apply one feature to the same arguments
in the same way, and where they do not tie, this is their order. -/
theorem Reachable.compareIgnoringOuter_preorder
    {checker : Checker} (reachable : checker.Reachable) :
    ∃ order : TypeId → TypeId → Ordering,
      (∀ a b, checker.Knows a → checker.Knows b →
        (compareIgnoringOuter a b).run checker = .ok (order a b) checker) ∧
      (∀ a b, checker.Knows a → checker.Knows b → order b a = (order a b).swap) ∧
      (∀ a b c, checker.Knows a → checker.Knows b → checker.Knows c →
        (order a b).isLE = true → (order b c).isLE = true → (order a c).isLE = true) ∧
      (∀ a b, checker.Knows a → checker.Knows b →
        (order a b = .eq ↔ a = b ∨ ∃ feature args outer outer' isRef isThis,
          checker.types.node a = .applied feature args outer isRef isThis ∧
            checker.types.node b = .applied feature args outer' isRef isThis)) ∧
      ∀ a b, checker.Knows a → checker.Knows b → order a b ≠ .eq →
        (compare a b).run checker = .ok (order a b) checker := by
  have coherent := reachable.sound.toWellFormed.types_canonical.toCoherent
  let tree (id : TypeId) : Ty := (checker.types.tree id).withoutOuter true
  refine ⟨fun a b => Ty.order checker.features (tree a) (tree b), ?_, ?_, ?_, ?_, ?_⟩
  · intro a b aKnown bKnown
    rw [run_compareIgnoringOuter, TypeStore.compareIgnoringOuter_eq coherent aKnown.1 bKnown.1
      aKnown.2 bKnown.2, answer]
  · intro a b _ _
    exact Ty.order_swap checker.features _ _
  · intro a b c _ _ _
    exact (Ty.order_consistent checker.features _ _ _).isLE_trans
  · intro a b aKnown bKnown
    rw [Ty.order_eq_iff, TypeStore.withoutOuter_tree_eq_iff coherent aKnown.1 bKnown.1]
  · intro a b aKnown bKnown differs
    rw [run_compare, TypeStore.compare, TypeStore.compareWithin_eq coherent aKnown.1 bKnown.1
      aKnown.2 bKnown.2 (Nat.lt_succ_self a.index), answer, Ty.order_of_withoutOuter_ne _ differs]

/-- A type with and without an outer type, and a type that applies a feature to each. -/
def outerOperations : List Operation :=
  [.declare (.feature "list" none true), .declare (.feature "int" none true),
    .construct (.instantiate ⟨1⟩ []), .construct (.applied ⟨2⟩ [] (some ⟨3⟩) true),
    .construct (.applied ⟨2⟩ [] none true), .construct (.instantiate ⟨1⟩ [⟨4⟩]),
    .construct (.instantiate ⟨1⟩ [⟨5⟩])]

theorem Reachable.compareIgnoringOuter_preorder_nested :
    let checker := afterAll outerOperations {}
    checker.Reachable ∧ (∀ id ∈ [4, 5, 6, 7], checker.Knows ⟨id⟩) ∧
      ∃ order : TypeId → TypeId → Ordering,
        (compareIgnoringOuter ⟨4⟩ ⟨5⟩).run checker = .ok (order ⟨4⟩ ⟨5⟩) checker ∧
        order ⟨4⟩ ⟨5⟩ = .eq ∧ order ⟨6⟩ ⟨7⟩ = .gt ∧ order ⟨7⟩ ⟨6⟩ = .lt ∧
        (order ⟨5⟩ ⟨7⟩).isLE = true ∧ (compare ⟨6⟩ ⟨7⟩).run checker = .ok .gt checker := by
  intro checker
  have reachable : checker.Reachable := (Reachable.initial {} {}).steps (by decide +kernel)
  have known : ∀ id ∈ [4, 5, 6, 7], checker.Knows ⟨id⟩ := by decide +kernel
  obtain ⟨order, compares, swaps, transitive, ties, agrees⟩ :=
    reachable.compareIgnoringOuter_preorder
  have known4 := known 4 (by decide)
  have known5 := known 5 (by decide)
  have known6 := known 6 (by decide)
  have known7 := known 7 (by decide)
  have value : ∀ {a b : TypeId} {result : Ordering}, checker.Knows a → checker.Knows b →
      checker.types.compareIgnoringOuter checker.features a b = .ok result →
        order a b = result := by
    intro a b result aKnown bKnown found
    have run := compares a b aKnown bKnown
    rw [run_compareIgnoringOuter, found, answer] at run
    exact (EStateM.Result.ok.inj run).1.symm
  have nested : order ⟨6⟩ ⟨7⟩ = .gt := value known6 known7 (by decide +kernel)
  have below : order ⟨4⟩ ⟨7⟩ = .lt := value known4 known7 (by decide +kernel)
  have tie : order ⟨4⟩ ⟨5⟩ = .eq := (ties _ _ known4 known5).mpr (Or.inr
    ⟨⟨2⟩, [], some ⟨3⟩, none, true, false, by decide +kernel, by decide +kernel⟩)
  refine ⟨reachable, known, order, compares _ _ known4 known5, tie, nested, ?_, ?_, ?_⟩
  · rw [swaps _ _ known6 known7, nested, Ordering.swap_gt]
  · have first : (order ⟨5⟩ ⟨4⟩).isLE = true := by rw [swaps _ _ known4 known5, tie]; rfl
    exact transitive _ _ _ known5 known4 known7 first (below ▸ rfl)
  · rw [← nested]
    exact agrees _ _ known6 known7 (by simp [nested])

end FeatureTypes.Checker

import FeatureTypes.Proofs.Checker.Upkeep
import FeatureTypes.Proofs.Feature.Ancestry

/-!
# Ancestors in a checker

In every reachable checker the question whether a feature inherits from another has an
answer.  Parents may form cycles there, and a feature may be its own parent.
-/

namespace FeatureTypes.Checker

theorem Reachable.inheritsFrom_iff_chain {checker : Checker} (reachable : checker.Reachable)
    {heir : FeatureId} (declares : checker.features.Declares heir) (ancestor : FeatureId) :
    ∃ answer, checker.features.inheritsFrom heir ancestor = .ok answer ∧
      (answer = true ↔ Relation.ReflTransGen checker.features.HasParent heir ancestor) :=
  reachable.built.orderly.closed.inheritsFrom_ok declares ancestor

/-- The first feature is its own parent and has two more, which share a parent, and that
one has the first feature as a parent.  The last feature stands apart. -/
def cyclicOperations : List Operation :=
  ["a", "b", "c", "d", "e"].map (fun name => .declare (.feature name none true)) ++
    [(1, 1), (1, 2), (1, 3), (2, 4), (3, 4), (4, 1)].map fun edge =>
      .declare (.parent ⟨edge.1⟩ ⟨edge.2⟩ [])

theorem Reachable.inheritsFrom_iff_chain_cyclic :
    let table := (afterAll cyclicOperations {}).features
    table.Declares ⟨4⟩ ∧ Relation.ReflTransGen table.HasParent ⟨4⟩ ⟨3⟩ ∧
      ¬ Relation.ReflTransGen table.HasParent ⟨4⟩ ⟨5⟩ := by
  intro table
  have reachable : (afterAll cyclicOperations {}).Reachable :=
    (Reachable.initial {} {}).steps (by decide +kernel)
  have declares : table.Declares ⟨4⟩ := by decide +kernel
  have above : table.inheritsFrom ⟨4⟩ ⟨3⟩ = .ok true := by decide +kernel
  have apart : table.inheritsFrom ⟨4⟩ ⟨5⟩ = .ok false := by decide +kernel
  obtain ⟨answer, answered, chain⟩ := reachable.inheritsFrom_iff_chain declares ⟨3⟩
  obtain ⟨answer', answered', chain'⟩ := reachable.inheritsFrom_iff_chain declares ⟨5⟩
  obtain rfl := Except.ok.inj (above.symm.trans answered)
  obtain rfl := Except.ok.inj (apart.symm.trans answered')
  exact ⟨declares, chain.mp rfl, fun path => Bool.false_ne_true (chain'.mpr path)⟩

end FeatureTypes.Checker

import FeatureTypes.Proofs.Feature.Built

/-!
# Grounded features

Nothing is asked of the table but what is above the feature, and formals may be open.
-/

namespace FeatureTypes.FeatureTable

variable {declared : Feature} {ancestor : FeatureId}

/-- The feature is declared and takes that many actuals. -/
def Accepts (table : FeatureTable) (owner : FeatureId) (count : Nat) : Prop :=
  ∃ declared, table.get owner = .ok declared ∧ declared.accepts count = true

/-- Above the feature there are no cycles, and all parents have fitting actuals. -/
structure Grounded (table : FeatureTable) (owner : FeatureId) : Prop where
  acyclic : ∀ id, table.Inherits owner id → ¬ Relation.TransGen table.HasParent id id
  accepted : ∀ id declared, table.Inherits owner id → table.get id = .ok declared →
    ∀ parent ∈ declared.parents, table.Accepts parent.ancestor parent.actuals.length

instance (table : FeatureTable) (owner : FeatureId) (count : Nat) :
    Decidable (table.Accepts owner count) :=
  match found : table.get owner with
  | .ok declared => decidable_of_iff (declared.accepts count = true) (by simp [Accepts, found])
  | .error _ => isFalse (by simp [Accepts, found])

instance (table : FeatureTable) : DecidablePred table.DeclaresPlain := fun id =>
  match found : table.get id with
  | .ok declared => decidable_of_iff (declared.isCompanion = false) (by
      simp [DeclaresPlain, found])
  | .error _ => isFalse (by simp [DeclaresPlain, found])

variable {table : FeatureTable} {owner : FeatureId}

theorem grounded_of_index_lt
    (earlier : ∀ id declared, table.get id = .ok declared → ∀ parent ∈ declared.parents,
      parent.ancestor.index < id.index ∧ table.Accepts parent.ancestor parent.actuals.length)
    (owner : FeatureId) : table.Grounded owner := by
  have acyclic : table.Acyclic := acyclic_of_index_lt fun id declared found parent member =>
    (earlier id declared found parent member).1
  exact ⟨fun id _ => acyclic id, fun id declared _ found parent member =>
    (earlier id declared found parent member).2⟩

theorem mem_of_inherits {members : List FeatureId}
    (closed : ∀ id declared, table.get id = .ok declared → id ∈ members →
      ∀ parent ∈ declared.parents, parent.ancestor ∈ members) (member : owner ∈ members)
    (inherits : table.Inherits owner ancestor) : ancestor ∈ members := by
  induction inherits with
  | refl => exact member
  | tail _ hasParent ih =>
    obtain ⟨declared, found, parent, isParent, rfl⟩ := hasParent
    exact closed _ declared found ih parent isParent

namespace Grounded

theorem of_inherits (grounded : table.Grounded owner) (inherits : table.Inherits owner ancestor) :
    table.Grounded ancestor :=
  ⟨fun id above => grounded.acyclic id (inherits.trans above),
    fun id declared above => grounded.accepted id declared (inherits.trans above)⟩

theorem not_inherits (grounded : table.Grounded owner) (found : table.get owner = .ok declared)
    {parent : Parent} (member : parent ∈ declared.parents) :
    ¬ table.Inherits parent.ancestor owner := by
  intro path
  exact grounded.acyclic owner .refl (.head' ⟨declared, found, parent, member, rfl⟩ path)

/-- Induction from the ancestors of a grounded feature down to it. -/
theorem induction (grounded : table.Grounded owner) {motive : FeatureId → Prop}
    (step : ∀ heir, table.Grounded heir →
      (∀ ancestor, table.HasParent heir ancestor → motive ancestor) → motive heir) : motive owner :=
  induction_above grounded.acyclic fun heir inherits => step heir (grounded.of_inherits inherits)

end Grounded

/-! ## Growth -/

section

variable {larger : FeatureTable} (growth : table.Grows larger)

include growth

theorem Accepts.of_grows {count : Nat} (accepts : table.Accepts owner count) :
    larger.Accepts owner count := by
  obtain ⟨declared, found, fits⟩ := accepts
  obtain ⟨_, foundLarger⟩ := growth.get_eq owner declared found
  exact ⟨_, foundLarger, fits⟩

theorem DeclaresPlain.of_grows {id : FeatureId} (plain : table.DeclaresPlain id) :
    larger.DeclaresPlain id := by
  obtain ⟨declared, found, notCompanion⟩ := plain
  obtain ⟨_, foundLarger⟩ := growth.get_eq id declared found
  exact ⟨_, foundLarger, notCompanion⟩

theorem HasParent.of_grows (found : table.get owner = .ok declared)
    (hasParent : larger.HasParent owner ancestor) : table.HasParent owner ancestor := by
  obtain ⟨declared', found', parent, member, isAncestor⟩ := hasParent
  obtain ⟨_, foundLarger⟩ := growth.get_eq owner declared found
  obtain rfl := Except.ok.inj (foundLarger.symm.trans found')
  exact ⟨declared, found, parent, member, isAncestor⟩

theorem Grounded.inherits_of_grows (grounded : table.Grounded owner)
    (found : table.get owner = .ok declared) {id : FeatureId}
    (inherits : larger.Inherits owner id) :
    table.Inherits owner id ∧ ∃ declared, table.get id = .ok declared := by
  induction inherits with
  | refl => exact ⟨.refl, declared, found⟩
  | tail _ hasParent ih =>
    obtain ⟨inherits, heir, foundHeir⟩ := ih
    have hasParent' := HasParent.of_grows growth foundHeir hasParent
    obtain ⟨heir', foundHeir', parent, member, rfl⟩ := hasParent'
    obtain ⟨ancestor, foundAncestor, _⟩ :=
      grounded.accepted _ heir' inherits foundHeir' parent member
    exact ⟨inherits.tail ⟨heir', foundHeir', parent, member, rfl⟩, ancestor, foundAncestor⟩

/-- A grounded feature stays so while the table grows. -/
theorem Grounded.of_grows (grounded : table.Grounded owner)
    (found : table.get owner = .ok declared) : larger.Grounded owner where
  acyclic := by
    intro id path cycle
    obtain ⟨inherits, heir, foundHeir⟩ := grounded.inherits_of_grows growth found path
    obtain ⟨parent, hasParent, back⟩ := Relation.TransGen.head'_iff.mp cycle
    obtain ⟨above, _, foundParent⟩ :=
      grounded.inherits_of_grows growth found (path.tail hasParent)
    have back' := ((grounded.of_inherits above).inherits_of_grows growth foundParent back).1
    exact grounded.acyclic id inherits (.head' (.of_grows growth foundHeir hasParent) back')
  accepted := by
    intro id declared' inherits found' parent member
    obtain ⟨inherits, heir, foundHeir⟩ := grounded.inherits_of_grows growth found inherits
    obtain ⟨_, foundLarger⟩ := growth.get_eq id heir foundHeir
    obtain rfl := Except.ok.inj (foundLarger.symm.trans found')
    exact (grounded.accepted id heir inherits foundHeir parent member).of_grows growth

end

end FeatureTypes.FeatureTable

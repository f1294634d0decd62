import Mathlib.Algebra.BigOperators.Group.Finset.Basic
import FeatureTypes.Proofs.Feature.Built

/-!
# The search for an ancestor

The search keeps the features that are still to be looked at and those it has seen.  What it
has seen does not have the wanted parent, and the parents of what it has seen are seen or
pending.
-/

namespace FeatureTypes.FeatureTable

variable {table : FeatureTable} {heir ancestor : FeatureId} {pending seen : List FeatureId}

/-! ## The answer -/

/-- How far the search for `ancestor` above `heir` has come. -/
structure Searching (table : FeatureTable) (heir ancestor : FeatureId)
    (pending seen : List FeatureId) : Prop where
  above : ∀ id ∈ pending, table.Inherits heir id
  begun : heir ∈ pending ∨ heir ∈ seen
  missed : ∀ id ∈ seen, ¬ table.HasParent id ancestor
  covered : ∀ id ∈ seen, ∀ next, table.HasParent id next → next ∈ pending ∨ next ∈ seen

theorem searching_start (table : FeatureTable) (heir ancestor : FeatureId) :
    table.Searching heir ancestor [heir] [] where
  above id member := List.mem_singleton.mp member ▸ .refl
  begun := Or.inl (List.mem_singleton.mpr rfl)
  missed id member := by cases member
  covered id member := by cases member

theorem hasParent_iff {id next : FeatureId} {declared : Feature}
    (found : table.get id = .ok declared) :
    table.HasParent id next ↔ next ∈ declared.parents.map Parent.ancestor := by
  rw [List.mem_map]
  constructor
  · rintro ⟨declared', found', isParent⟩
    obtain rfl := Except.ok.inj (found.symm.trans found')
    exact isParent
  · exact fun isParent => ⟨declared, found, isParent⟩

namespace Searching

variable {current : FeatureId} (searching : table.Searching heir ancestor (current :: pending) seen)

include searching

theorem skip (visited : current ∈ seen) : table.Searching heir ancestor pending seen where
  above id member := searching.above id (List.mem_cons_of_mem _ member)
  begun := by
    rcases searching.begun with inPending | inSeen
    · rcases List.mem_cons.mp inPending with rfl | later
      · exact Or.inr visited
      · exact Or.inl later
    · exact Or.inr inSeen
  missed := searching.missed
  covered id member next isParent := by
    rcases searching.covered id member next isParent with inPending | inSeen
    · rcases List.mem_cons.mp inPending with rfl | later
      · exact Or.inr visited
      · exact Or.inl later
    · exact Or.inr inSeen

theorem expand {declared : Feature} (found : table.get current = .ok declared)
    (absent : ancestor ∉ declared.parents.map Parent.ancestor) :
    table.Searching heir ancestor (declared.parents.map Parent.ancestor ++ pending)
      (current :: seen) := by
  have moved : ∀ id, id ∈ current :: pending ∨ id ∈ seen →
      id ∈ declared.parents.map Parent.ancestor ++ pending ∨ id ∈ current :: seen := by
    rintro id (inPending | inSeen)
    · rcases List.mem_cons.mp inPending with rfl | later
      · exact Or.inr List.mem_cons_self
      · exact Or.inl (List.mem_append_right _ later)
    · exact Or.inr (List.mem_cons_of_mem _ inSeen)
  refine ⟨?_, moved heir searching.begun, ?_, ?_⟩
  · intro id member
    rcases List.mem_append.mp member with isParent | later
    · exact (searching.above current List.mem_cons_self).tail ((hasParent_iff found).mpr isParent)
    · exact searching.above id (List.mem_cons_of_mem _ later)
  · rw [List.forall_mem_cons]
    exact ⟨fun isParent => absent ((hasParent_iff found).mp isParent), searching.missed⟩
  · rw [List.forall_mem_cons]
    refine ⟨fun next isParent => ?_, fun id member next isParent => ?_⟩
    · exact Or.inl (List.mem_append_left _ ((hasParent_iff found).mp isParent))
    · exact moved next (searching.covered id member next isParent)

end Searching

theorem Searching.not_above (searching : table.Searching heir ancestor [] seen) :
    ¬ Relation.TransGen table.HasParent heir ancestor := by
  have seenAll : ∀ id, table.Inherits heir id → id ∈ seen := by
    intro id path
    induction path with
    | refl => exact searching.begun.resolve_left (by simp)
    | tail _ isParent ih =>
      exact (searching.covered _ ih _ isParent).resolve_left (by simp)
  intro path
  obtain ⟨last, inherits, isParent⟩ := Relation.TransGen.tail'_iff.mp path
  exact searching.missed last (seenAll last inherits) isParent

/-- In the middle of a search the answer is that of the whole search. -/
theorem hasAncestorWithin_iff {budget : Nat} {answer : Bool}
    (searching : table.Searching heir ancestor pending seen)
    (answered : table.hasAncestorWithin ancestor budget pending seen = .ok answer) :
    answer = true ↔ Relation.TransGen table.HasParent heir ancestor := by
  induction budget generalizing pending seen with
  | zero =>
    cases pending with
    | nil =>
      obtain rfl := Except.ok.inj answered
      simp [searching.not_above]
    | cons current rest => cases answered
  | succ budget ih =>
    cases pending with
    | nil =>
      obtain rfl := Except.ok.inj answered
      simp [searching.not_above]
    | cons current rest =>
      rw [hasAncestorWithin] at answered
      split at answered
      next visited => exact ih (searching.skip visited) answered
      next =>
        obtain ⟨declared, found, answered⟩ := except_bind_eq_ok answered
        dsimp only at answered
        split at answered
        next isParent =>
          obtain rfl := Except.ok.inj answered
          have inherits := searching.above current List.mem_cons_self
          simp only [true_iff]
          exact .tail' inherits ((hasParent_iff found).mpr isParent)
        next absent => exact ih (searching.expand found absent) answered

theorem inheritsFrom_iff {answer : Bool}
    (answered : table.inheritsFrom heir ancestor = .ok answer) :
    answer = true ↔ table.Inherits heir ancestor := by
  unfold inheritsFrom at answered
  split at answered
  next same =>
    obtain rfl := Except.ok.inj answered
    subst same
    simp only [true_iff]
    exact .refl
  next different =>
    rw [hasAncestorWithin_iff (searching_start table heir ancestor) answered, Inherits,
      Relation.reflTransGen_iff_eq_or_transGen, or_iff_right (Ne.symm different)]

/-! ## The bound -/

theorem Declares.exists_get {id : FeatureId} (declares : table.Declares id) :
    ∃ declared, table.get id = .ok declared := by
  have bound : id.index < table.features.size := declares
  exact ⟨table.features[id.index], get_eq_ok_iff.mpr (Array.getElem?_eq_getElem bound)⟩

/-- Every parent is declared. -/
def Closed (table : FeatureTable) : Prop :=
  ∀ heir ancestor, table.HasParent heir ancestor → table.Declares ancestor

theorem Orderly.closed {types : TypeStore} (orderly : table.Orderly types) : table.Closed := by
  rintro heir ancestor ⟨declared, found, parent, member, rfl⟩
  obtain ⟨_, ancestor, _, ancestorFound, _⟩ :=
    (orderly.each heir declared found).parent_spelled parent member
  exact index_lt_size ancestorFound

/-- The number of parents that the feature at a position has. -/
def parentsAt (table : FeatureTable) (position : Nat) : Nat :=
  table.features[position]?.elim 0 fun declared => declared.parents.length

/-- The number of parents over all features that were not seen. -/
def unseen (table : FeatureTable) (seen : List FeatureId) : Nat :=
  ∑ position ∈ (Finset.range table.size).filter (⟨·⟩ ∉ seen), table.parentsAt position

theorem unseen_nil (table : FeatureTable) : table.unseen [] = table.parentCount := by
  have listed : (List.range table.size).map table.parentsAt =
      table.features.toList.map fun declared => declared.parents.length := by
    apply List.ext_getElem (by simp [size])
    intro position bound bound'
    have declared : position < table.features.size := by simpa using bound'
    simp [parentsAt, Array.getElem?_eq_getElem declared]
  simp only [unseen, List.not_mem_nil, not_false_eq_true, Finset.filter_true, parentCount,
    List.length_flatMap, ← listed]
  rfl

theorem unseen_cons {current : FeatureId} {declared : Feature}
    (found : table.get current = .ok declared) (fresh : current ∉ seen) :
    table.unseen (current :: seen) + declared.parents.length = table.unseen seen := by
  have parentsEq : table.parentsAt current.index = declared.parents.length := by
    rw [parentsAt, get_eq_ok_iff.mp found]
    rfl
  have remaining : (Finset.range table.size).filter (⟨·⟩ ∉ current :: seen) =
      ((Finset.range table.size).filter (⟨·⟩ ∉ seen)).erase current.index := by
    ext position
    have sameIff : (⟨position⟩ : FeatureId) = current ↔ position = current.index :=
      ⟨fun same => same ▸ rfl, fun same => same ▸ rfl⟩
    simp only [Finset.mem_filter, Finset.mem_range, Finset.mem_erase, List.mem_cons, sameIff]
    tauto
  have member : current.index ∈ (Finset.range table.size).filter (⟨·⟩ ∉ seen) :=
    Finset.mem_filter.mpr ⟨Finset.mem_range.mpr (index_lt_size found), fresh⟩
  rw [unseen, unseen, remaining, ← parentsEq, Finset.sum_erase_add _ _ member]

/-- The budget suffices for what is pending and for what was never seen. -/
theorem exists_hasAncestorWithin (closed : table.Closed) (ancestor : FeatureId) {budget : Nat}
    (declares : ∀ id ∈ pending, table.Declares id)
    (enough : pending.length + table.unseen seen ≤ budget) :
    ∃ answer, table.hasAncestorWithin ancestor budget pending seen = .ok answer := by
  -- A feature that is seen again is dropped, and one that is seen first adds only its parents.
  induction budget generalizing pending seen with
  | zero =>
    obtain rfl : pending = [] := List.length_eq_zero_iff.mp (by omega)
    exact ⟨false, rfl⟩
  | succ budget ih =>
    cases pending with
    | nil => exact ⟨false, rfl⟩
    | cons current rest =>
      rw [List.forall_mem_cons] at declares
      rw [List.length_cons] at enough
      rw [hasAncestorWithin]
      split
      next => exact ih declares.2 (by omega)
      next fresh =>
        obtain ⟨declared, found⟩ := declares.1.exists_get
        have fewer := unseen_cons found fresh
        rw [found]
        change ∃ answer, (if ancestor ∈ declared.parents.map Parent.ancestor then Except.ok true
          else _) = Except.ok answer
        split
        next => exact ⟨true, rfl⟩
        next =>
          refine ih ?_ ?_
          · intro id member
            rcases List.mem_append.mp member with isParent | later
            · exact closed current id ((hasParent_iff found).mpr isParent)
            · exact declares.2 id later
          · rw [List.length_append, List.length_map]
            omega

/-- The search has an answer, and the answer is right. -/
theorem Closed.inheritsFrom_ok (closed : table.Closed) (declares : table.Declares heir)
    (ancestor : FeatureId) :
    ∃ answer, table.inheritsFrom heir ancestor = .ok answer ∧
      (answer = true ↔ table.Inherits heir ancestor) := by
  have answers : ∃ answer, table.inheritsFrom heir ancestor = .ok answer := by
    unfold inheritsFrom
    split
    · exact ⟨true, rfl⟩
    · refine exists_hasAncestorWithin closed ancestor (by simpa using declares) ?_
      rw [unseen_nil, List.length_singleton]
      omega
  obtain ⟨answer, answered⟩ := answers
  exact ⟨answer, answered, inheritsFrom_iff answered⟩

end FeatureTypes.FeatureTable

import FeatureTypes.Ty.Display
import FeatureTypes.Proofs.Feature.Growth
import FeatureTypes.Proofs.Store.Canonical

/-!
# The display of types in growing stores
-/

namespace FeatureTypes

variable {phrase : Phrase}

namespace TypeStore

theorem outerPhrase_eq {depict depict' : Depiction} {outer : Option TypeId}
    (agree : ∀ ty ∈ outer, ∀ phrase, depict ty = .ok phrase → depict' ty = .ok phrase)
    (shown : outerPhrase depict outer = .ok phrase) : outerPhrase depict' outer = .ok phrase := by
  cases outer with
  | none => exact shown
  | some ty =>
    obtain ⟨part, shownPart, result⟩ := except_bind_eq_ok shown
    simp only [outerPhrase, agree ty rfl part shownPart]
    exact result

theorem argsPhrase_eq {depict depict' : Depiction} {args : List TypeId}
    (agree : ∀ ty ∈ args, ∀ phrase, depict ty = .ok phrase → depict' ty = .ok phrase)
    (shown : argsPhrase depict args = .ok phrase) : argsPhrase depict' args = .ok phrase := by
  induction args generalizing phrase with
  | nil => exact shown
  | cons ty rest ih =>
    rw [List.forall_mem_cons] at agree
    obtain ⟨first, shownFirst, result⟩ := except_bind_eq_ok shown
    obtain ⟨others, shownOthers, result⟩ := except_bind_eq_ok result
    simp only [argsPhrase, agree.1 first shownFirst, ih agree.2 shownOthers]
    exact result

variable {store larger : TypeStore} {table table' : FeatureTable}

theorem formalPhrase_eq (growth : table.Grows table') {id : FormalId} {boxed : Bool}
    (shown : table.formalPhrase id boxed = .ok phrase) :
    table'.formalPhrase id boxed = .ok phrase := by
  obtain ⟨declared, found, result⟩ := except_bind_eq_ok shown
  obtain ⟨name, named, result⟩ := except_bind_eq_ok result
  obtain ⟨companion, foundLarger⟩ := growth.get_eq _ _ found
  simp only [FeatureTable.formalPhrase, foundLarger, growth.formalName_eq named]
  exact result

variable {ty : TypeId} (coherent : store.Coherent) (extension : store.Extends larger)
  (growth : table.Grows table') (held : store.Holds ty)

include coherent extension growth held

theorem phraseWithin_eq {depth : Nat} (shown : store.phraseWithin table depth ty = .ok phrase) :
    larger.phraseWithin table' depth ty = .ok phrase := by
  induction depth generalizing ty phrase with
  | zero => cases shown
  | succ depth ih =>
    have childHeld : ∀ child ∈ (store.node ty).children, store.Holds child :=
      fun _ => coherent.child_holds held
    simp only [phraseWithin, extension.node_eq held] at shown ⊢
    cases layer : store.node ty with
    | applied feature args outer isRef isThis =>
      simp only [layer] at shown childHeld ⊢
      obtain ⟨declared, found, result⟩ := except_bind_eq_ok shown
      obtain ⟨qualifier, shownOuter, result⟩ := except_bind_eq_ok result
      obtain ⟨arguments, shownArgs, result⟩ := except_bind_eq_ok result
      obtain ⟨companion, foundLarger⟩ := growth.get_eq _ _ found
      have outerAgrees : ∀ around ∈ outer, ∀ phrase,
          store.phraseWithin table depth around = .ok phrase →
            larger.phraseWithin table' depth around = .ok phrase :=
        fun around member _ =>
          ih (childHeld around (by simp_all [Node.children]))
      have argsAgree : ∀ argument ∈ args, ∀ phrase,
          store.phraseWithin table depth argument = .ok phrase →
            larger.phraseWithin table' depth argument = .ok phrase :=
        fun argument member _ =>
          ih (childHeld argument (by simp [Node.children, member]))
      simp only [foundLarger, outerPhrase_eq outerAgrees shownOuter,
        argsPhrase_eq argsAgree shownArgs]
      exact result
    | formal id boxed =>
      simp only [layer] at shown ⊢
      exact formalPhrase_eq growth shown
    | _ =>
      simp only [layer] at shown ⊢
      exact shown

/-- Types keep their texts. -/
theorem display_eq {text : String} (shown : store.display table ty = .ok text) :
    larger.display table' ty = .ok text := by
  obtain ⟨phrase, shownPhrase, result⟩ := except_bind_eq_ok shown
  simp only [display, phraseWithin_eq coherent extension growth held shownPhrase]
  exact result

end TypeStore

end FeatureTypes

import FeatureTypes.Proofs.Checker.Order
import FeatureTypes.Proofs.Renumbering.History

/-!
# Answers do not depend on numbers

Checkers whose histories differ only in the types that were stored on the way give the same
answers.
-/

namespace FeatureTypes

/-- What an operation comes to, seen through the types that are stored afterwards.  There
is nothing to see if it fails. -/
def Checker.outcome
    {α β : Type} (view : TypeStore → α → β) (operation : CheckM α) (checker : Checker) : Option β :=
  match operation.run checker with
  | .ok result after => some (view after.types result)
  | .error _ _ => none

namespace Renumbering

open Checker

/-! ## Outcomes of coupled operations -/

variable {α β : Type} {view : TypeStore → α → β} {relation : Pair → α → α → Prop}

/-- Related results look the same. -/
def Faithful (view : TypeStore → α → β) (relation : Pair → α → α → Prop) : Prop :=
  ∀ pair result result', relation pair result result' →
    view pair.second.types result' = view pair.first.types result

theorem faithful_type : Faithful TypeStore.tree renumbering.same :=
  fun _ _ _ matching => matching.2.2

theorem faithful_types :
    Faithful (fun types => List.map types.tree) fun pair => List.Forall₂ (renumbering.same pair) :=
  fun _ _ _ matching => (TypeStore.forall₂_matches_iff.mp matching).2.2

theorem faithful_summands :
    Faithful (fun types => Option.map (List.map types.tree))
      fun pair => Option.Rel (List.Forall₂ (renumbering.same pair)) := by
  intro pair summands summands' matching
  cases matching with
  | none => rfl
  | some matching => exact congrArg some (faithful_types pair _ _ matching)

theorem outcome_of_couples (faithful : Faithful view relation) {pair : Pair}
    {operation operation' : CheckM α}
    (coupled : renumbering.couples pair operation operation' relation) {value : β}
    (comes : outcome view operation pair.first = some value) :
    outcome view operation' pair.second = some value := by
  simp only [renumbering] at coupled
  unfold outcome at comes ⊢
  generalize operation.run pair.first = result at coupled comes
  generalize operation'.run pair.second = result' at coupled ⊢
  cases coupled with
  | ok next _ related => exact (congrArg some (faithful next _ _ related)).trans comes
  | failed failure next => cases comes
  | exhausted checker => cases comes

section

variable {first second : Checker} {there : first.Renumbered second} {back : second.Renumbered first}

theorem outcome_eq (faithful : Faithful view relation) {operation operation' : CheckM α}
    (coupled : renumbering.couples ⟨first, second, there⟩ operation operation' relation)
    (coupled' : renumbering.couples ⟨second, first, back⟩ operation' operation relation) :
    outcome view operation' second = outcome view operation first :=
  Option.ext fun _ => ⟨outcome_of_couples faithful coupled', outcome_of_couples faithful coupled⟩

theorem answer_eq {operation operation' : CheckM α}
    (coupled : renumbering.couples ⟨first, second, there⟩ operation operation' renumbering.Agrees)
    (coupled' : renumbering.couples ⟨second, first, back⟩ operation' operation renumbering.Agrees) :
    operation'.run' second = operation.run' first := by
  have run'_eq (operation : CheckM α) (checker : Checker) :
      operation.run' checker = outcome (fun _ answer => answer) operation checker := by
    unfold EStateM.run' outcome
    cases operation.run checker <;> rfl
  rw [run'_eq, run'_eq]
  exact outcome_eq (fun _ _ _ agree => agree) coupled coupled'

end

theorem couples_compare {pair : Pair} {left left' right right' : TypeId}
    (leftSame : renumbering.same pair left left') (rightSame : renumbering.same pair right right') :
    renumbering.couples pair (compare left right) (compare left' right') renumbering.Agrees :=
  have renumbered := pair.renumbered
  couples_query (run_compare _ _ _) (run_compare _ _ _)
    (TypeStore.compare_of_matches renumbered.wellFormed.types_canonical.toCoherent
      renumbered.other_wellFormed.types_canonical.toCoherent renumbered.features_renumbered
      leftSame rightSame)

end Renumbering

namespace Checker

open Renumbering

/-- Histories that declare the same in the same order lead to checkers with the same answers for
matching types, whatever else was stored on the way. -/
theorem Parallel.outcomes_eq
    {first second : Checker} (parallel : first.Parallel second) (owner : FeatureId)
    {left left' right right' : TypeId} {list list' : List TypeId}
    (leftMatches : first.types.Matches second.types left left')
    (rightMatches : first.types.Matches second.types right right')
    (listMatches : List.Forall₂ (first.types.Matches second.types) list list') :
    (compare left' right').run' second = (compare left right).run' first ∧
      (isAssignable left' right').run' second = (isAssignable left right).run' first ∧
      (isDirectlyAssignable left' right').run' second =
        (isDirectlyAssignable left right).run' first ∧
      (meetsConstraint left' right').run' second = (meetsConstraint left right).run' first ∧
      (display left').run' second = (display left).run' first ∧
      outcome TypeStore.tree (substitute owner list' left') second =
        outcome TypeStore.tree (substitute owner list left) first ∧
      outcome TypeStore.tree (substituteVia left' right') second =
        outcome TypeStore.tree (substituteVia left right) first ∧
      outcome (fun types => List.map types.tree) (replaceFormals left' list') second =
        outcome (fun types => List.map types.tree) (replaceFormals left list) first ∧
      outcome (fun types => Option.map (List.map types.tree)) (summands? left') second =
        outcome (fun types => Option.map (List.map types.tree)) (summands? left) first ∧
      outcome TypeStore.tree (replaceThis left' right') second =
        outcome TypeStore.tree (replaceThis left right) first ∧
      outcome TypeStore.tree (metatype left') second =
        outcome TypeStore.tree (metatype left) first ∧
      outcome TypeStore.tree (union left' right') second =
        outcome TypeStore.tree (union left right) first := by
  -- A coupling lets the first run nest too deeply whatever the second one does, so each checker
  -- has to be the first one once.
  let pair : Pair := ⟨first, second, parallel.renumbered⟩
  let pair' : Pair := ⟨second, first, parallel.renumbered.symm⟩
  have leftSame : renumbering.same pair left left' := leftMatches
  have rightSame : renumbering.same pair right right' := rightMatches
  have listSame : List.Forall₂ (renumbering.same pair) list list' := listMatches
  have leftSame' : renumbering.same pair' left' left := leftMatches.symm
  have rightSame' : renumbering.same pair' right' right := rightMatches.symm
  have listSame' : List.Forall₂ (renumbering.same pair') list' list :=
    (listMatches.imp fun _ _ => .symm).flip
  refine ⟨?_, ?_, ?_, ?_, ?_, ?_, ?_, ?_, ?_, ?_, ?_, ?_⟩
  · exact answer_eq (couples_compare leftSame rightSame) (couples_compare leftSame' rightSame')
  · exact answer_eq (full.isAssignable leftSame rightSame)
      (full.isAssignable leftSame' rightSame')
  · exact answer_eq (full.isDirectlyAssignable leftSame rightSame)
      (full.isDirectlyAssignable leftSame' rightSame')
  · exact answer_eq (full.meetsConstraint leftSame rightSame)
      (full.meetsConstraint leftSame' rightSame')
  · exact answer_eq (core.display leftSame) (core.display leftSame')
  · exact outcome_eq faithful_type (full.substitute pair owner _ _ _ _ listSame leftSame)
      (full.substitute pair' owner _ _ _ _ listSame' leftSame')
  · exact outcome_eq faithful_type (full.substituteVia leftSame rightSame)
      (full.substituteVia leftSame' rightSame')
  · exact outcome_eq faithful_types (full.replaceFormals leftSame listSame)
      (full.replaceFormals leftSame' listSame')
  · exact outcome_eq faithful_summands (full.summands? leftSame) (full.summands? leftSame')
  · exact outcome_eq faithful_type (core.replaceThis leftSame rightSame)
      (core.replaceThis leftSame' rightSame')
  · exact outcome_eq faithful_type (full.metatype leftSame) (full.metatype leftSame')
  · exact outcome_eq faithful_type (full.union leftSame rightSame)
      (full.union leftSame' rightSame')

/-- One checker stores the list of items before the formal of lists is declared, and the other
one afterwards. -/
theorem Parallel.outcomes_eq_list :
    let first := afterAll [.declare (.feature "any" none true),
      .construct (.instantiate ⟨1⟩ []), .declare (.feature "list" none true),
      .declare (.formal ⟨2⟩ "T" ⟨3⟩ false {}), .declare (.parent ⟨2⟩ ⟨1⟩ []),
      .declare (.feature "item" none false), .construct (.instantiate ⟨3⟩ []),
      .construct (.instantiate ⟨2⟩ [⟨5⟩]), .construct (.instantiate ⟨2⟩ [⟨4⟩])] {}
    let second := afterAll [.construct (.applied ⟨3⟩ [] none false),
      .declare (.feature "any" none true), .construct (.instantiate ⟨1⟩ []),
      .declare (.feature "list" none true), .construct (.instantiate ⟨2⟩ [⟨3⟩]),
      .declare (.formal ⟨2⟩ "T" ⟨4⟩ false {}), .declare (.parent ⟨2⟩ ⟨1⟩ []),
      .declare (.feature "item" none false), .construct (.asThis ⟨5⟩),
      .construct (.instantiate ⟨2⟩ [⟨6⟩])] {}
    first.Parallel second ∧ first.types.Matches second.types ⟨7⟩ ⟨8⟩ ∧
      first.types.Matches second.types ⟨6⟩ ⟨5⟩ ∧
      List.Forall₂ (first.types.Matches second.types) [⟨5⟩] [⟨3⟩] ∧
      (isAssignable ⟨8⟩ ⟨5⟩).run' second = some false ∧
      outcome TypeStore.tree (substitute ⟨2⟩ [⟨3⟩] ⟨8⟩) second = some (first.types.tree ⟨6⟩) := by
  intro first second
  have parallel : first.Parallel second := by
    have start : Parallel {} {} := .initial {} {}
    have early := start.constructSecond (.applied ⟨3⟩ [] none false) (by decide +kernel)
      (by decide +kernel)
    have any := early.declare (.feature "any" none true) (by decide +kernel)
    have any₁ := any.constructFirst (.instantiate ⟨1⟩ []) (by decide +kernel) (by decide +kernel)
    have any₂ := any₁.constructSecond (.instantiate ⟨1⟩ []) (by decide +kernel) (by decide +kernel)
    have list := any₂.declare (.feature "list" none true) (by decide +kernel)
    have listOfItem := list.constructSecond (.instantiate ⟨2⟩ [⟨3⟩]) (by decide +kernel)
      (by decide +kernel)
    have formal := listOfItem.declare (.formal ⟨2⟩ "T" ⟨3⟩ ⟨4⟩ (by decide +kernel) false {})
      (by decide +kernel)
    have parent := formal.declare (.parent ⟨2⟩ ⟨1⟩ [] [] .nil) (by decide +kernel)
    have item := parent.declare (.feature "item" none false) (by decide +kernel)
    have item₁ := item.constructFirst (.instantiate ⟨3⟩ []) (by decide +kernel) (by decide +kernel)
    have listOfItem₁ := item₁.constructFirst (.instantiate ⟨2⟩ [⟨5⟩]) (by decide +kernel)
      (by decide +kernel)
    have listOfFormal₁ := listOfItem₁.constructFirst (.instantiate ⟨2⟩ [⟨4⟩]) (by decide +kernel)
      (by decide +kernel)
    have listThis := listOfFormal₁.constructSecond (.asThis ⟨5⟩) (by decide +kernel)
      (by decide +kernel)
    exact listThis.constructSecond (.instantiate ⟨2⟩ [⟨6⟩]) (by decide +kernel) (by decide +kernel)
  have matching : first.types.Matches second.types ⟨7⟩ ⟨8⟩ := by decide +kernel
  have matching' : first.types.Matches second.types ⟨6⟩ ⟨5⟩ := by decide +kernel
  have listMatching : List.Forall₂ (first.types.Matches second.types) [⟨5⟩] [⟨3⟩] := by
    decide +kernel
  have assignable : (isAssignable ⟨7⟩ ⟨6⟩).run' first = some false := by decide +kernel
  have substituted : outcome TypeStore.tree (substitute ⟨2⟩ [⟨5⟩] ⟨7⟩) first =
      some (first.types.tree ⟨6⟩) := by decide +kernel
  clear_value first second
  obtain ⟨_, isAssignable, _, _, _, substitute, _⟩ :=
    parallel.outcomes_eq ⟨2⟩ matching matching' listMatching
  exact ⟨parallel, matching, matching', listMatching, isAssignable.trans assignable,
    substitute.trans substituted⟩

end Checker

end FeatureTypes

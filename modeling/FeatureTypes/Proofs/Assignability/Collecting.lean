import FeatureTypes.Proofs.Meaning.Assignability
import FeatureTypes.Proofs.Substitution.Boxing

/-!
# Assignability with the names of the types tried

Collecting names does not change the answer of a check, and the names it adds to an
ascending list are those of the types on the walk up from the actual.
-/

namespace FeatureTypes

variable {names : List String} {name : String}

namespace Checker

theorem mem_insertName {other : String} :
    other ∈ insertName name names ↔ other = name ∨ other ∈ names := by
  induction names with
  | nil => simp [insertName]
  | cons first rest ih =>
    rw [insertName]
    split
    · simp
    · split
      next same => simp [same]
      next => rw [List.mem_cons, ih, List.mem_cons, or_left_comm]

theorem insertName_pairwise (sorted : names.Pairwise (· < ·)) :
    (insertName name names).Pairwise (· < ·) := by
  induction names with
  | nil => simp [insertName]
  | cons first rest ih =>
    rw [insertName]
    rw [List.pairwise_cons] at sorted
    split
    next before =>
      rw [List.pairwise_cons, List.forall_mem_cons, List.pairwise_cons]
      exact ⟨⟨before, fun other member => String.lt_trans before (sorted.1 other member)⟩, sorted⟩
    next notBefore =>
      split
      next => exact List.pairwise_cons.mpr sorted
      next different =>
        refine List.pairwise_cons.mpr ⟨?_, ih sorted.2⟩
        intro other member
        rcases mem_insertName.mp member with rfl | member
        · exact Std.lt_of_le_of_ne (String.not_lt.mp notBefore) (Ne.symm different)
        · exact sorted.1 other member

theorem mem_foldl_insertName {added : List String} :
    name ∈ added.foldl (fun names name => insertName name names) names ↔
      name ∈ names ∨ name ∈ added := by
  induction added generalizing names with
  | nil => simp
  | cons first rest ih =>
    rw [List.foldl_cons, ih, mem_insertName, List.mem_cons, or_assoc, or_left_comm]

theorem foldl_insertName_pairwise {added : List String} (sorted : names.Pairwise (· < ·)) :
    (added.foldl (fun names name => insertName name names) names).Pairwise (· < ·) := by
  induction added generalizing names with
  | nil => exact sorted
  | cons first rest ih => exact ih (insertName_pairwise sorted)

variable {signature : Signature} {checker : Checker}

theorem finds_isAssignableCollecting (obeys : checker.Obeys signature) {target actual : TypeId}
    {target' actual' : Ty} (targetDenotes : checker.types.Denotes target target')
    (actualDenotes : checker.types.Denotes actual actual') (names : List String) :
    Finds signature checker (isAssignableCollecting target actual names) fun _ result =>
      (result.1 = true ↔ signature.Takes target' actual') ∧ ∃ added,
        checker.features.Lists (signature.Tries target' actual') added ∧
          result.2 = added.foldl (fun names name => insertName name names) names := by
  refine .look (EStateM.run_get checker) ?_
  refine .bind (assignableWithin_keepsTo _ true obeys targetDenotes actualDenotes) ?_
  intro after verdict obeys' _ answers
  exact .pure obeys' ⟨answers.holds_iff, verdict.names, answers.names_listed rfl, rfl⟩

/-- Collecting names does not change the answer of a check.  The names collected are those that
were there before and those of the types tried, in ascending order. -/
theorem collecting_adds_tried
    (start : Checker) (faithful : start.Faithful) (target actual : TypeId)
    (held : ∀ ty ∈ [target, actual], start.types.Holds ty) (names : List String)
    {answer found : Bool} {collected : List String}
    (answers : start.Answers (isAssignable target actual) answer)
    (collects : start.Answers (isAssignableCollecting target actual names) (found, collected)) :
    found = answer ∧
      (∀ name, name ∈ collected ↔ name ∈ names ∨ ∃ ty,
        start.signature.Tries (start.types.tree target) (start.types.tree actual) ty ∧
          ty.display start.features = .ok name) ∧
      (∀ ty, start.signature.Tries (start.types.tree target) (start.types.tree actual) ty →
        ∃ name ∈ collected, ty.display start.features = .ok name) ∧
      (names.Pairwise (· < ·) → collected.Pairwise (· < ·)) := by
  simp only [List.forall_mem_cons] at held
  have answerIff := answers.holds faithful fun checker obeys _ denotes =>
    finds_isAssignable obeys (denotes target held.1) (denotes actual held.2.1)
  obtain ⟨foundIff, added, lists, rfl⟩ := collects.holds faithful
    fun checker obeys featuresEq denotes => featuresEq ▸ finds_isAssignableCollecting obeys
      (denotes target held.1) (denotes actual held.2.1) names
  refine ⟨?_, ?_, ?_, fun sorted => foldl_insertName_pairwise sorted⟩
  · rw [Bool.eq_iff_iff, foundIff, answerIff]
  · intro name
    rw [mem_foldl_insertName]
    refine or_congr_right ⟨lists.exists_of_mem name, ?_⟩
    rintro ⟨ty, tries, shown⟩
    obtain ⟨name', member, shown'⟩ := lists.name_mem ty tries
    obtain rfl := Except.ok.inj (shown.symm.trans shown')
    exact member
  · intro ty tries
    obtain ⟨name, member, shown⟩ := lists.name_mem ty tries
    exact ⟨name, mem_foldl_insertName.mpr (Or.inr member), shown⟩

/-- The check stops at the first parent, and the one that collects names goes on to the second
one and to what is above it. -/
theorem collecting_adds_tried_diamond :
    let start := afterAll
      [.declare (.feature "any" none true), .declare (.feature "left" none true),
        .declare (.parent ⟨2⟩ ⟨1⟩ []), .declare (.feature "right" none true),
        .declare (.parent ⟨3⟩ ⟨1⟩ []), .declare (.feature "both" none true),
        .declare (.parent ⟨4⟩ ⟨2⟩ []), .declare (.parent ⟨4⟩ ⟨3⟩ []),
        .construct (.instantiate ⟨4⟩ [])] {}
    start.options.memoize = true ∧ start.Answers (isAssignable ⟨4⟩ ⟨6⟩) true ∧
      start.Answers (isAssignableCollecting ⟨4⟩ ⟨6⟩ ["number"])
        (true, ["any", "both", "left", "number", "right"]) ∧
      ∃ ty, start.signature.Tries (start.types.tree ⟨4⟩) (start.types.tree ⟨6⟩) ty ∧
        ty.display start.features = .ok "any" := by
  intro start
  have reachable : start.Reachable := (Reachable.initial {} {}).steps (by decide +kernel)
  have answers : start.Answers (isAssignable ⟨4⟩ ⟨6⟩) true := answers_of_run (by decide +kernel)
  have collects : start.Answers (isAssignableCollecting ⟨4⟩ ⟨6⟩ ["number"])
      (true, ["any", "both", "left", "number", "right"]) := answers_of_run (by decide +kernel)
  obtain ⟨_, named, _⟩ := collecting_adds_tried start
    (reachable.faithful (by decide +kernel)) ⟨4⟩ ⟨6⟩ (by decide +kernel) ["number"] answers collects
  refine ⟨by decide +kernel, answers, collects, ?_⟩
  exact ((named "any").mp (by simp)).resolve_left (by simp)

end Checker

end FeatureTypes

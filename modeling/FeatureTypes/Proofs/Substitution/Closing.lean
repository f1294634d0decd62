import FeatureTypes.Proofs.Substitution.View
import FeatureTypes.Proofs.Ty.Levels

/-!
# Types seen from inside closed types

Each outer type settles the formals that the types inside it have left, so a type that
mentions no other formals is seen without any formals.
-/

namespace FeatureTypes

namespace FeatureTable

/-- The formal is declared by a feature that the type or one of its outer types applies, or
by an ancestor of such a feature. -/
def SettledBy (table : FeatureTable) (source : Ty) (id : FormalId) : Prop :=
  table.DeclaresFormal id ∧ ∃ level ∈ source.levels, ∃ feature,
    level.appliedFeature? = some feature ∧ table.Inherits feature id.feature

variable {table : FeatureTable} {feature : FeatureId} {args : List Ty} {isRef isThis : Bool}
  {id : FormalId}

theorem settledBy_applied_iff {outer : Option Ty} :
    table.SettledBy (.applied feature args outer isRef isThis) id ↔
      table.Reaches feature id ∨ ∃ around, outer = some around ∧ table.SettledBy around id := by
  unfold SettledBy Reaches
  cases outer with
  | none => simp [Ty.levels, Ty.levelsOfOption, Ty.appliedFeature?, and_comm]
  | some around =>
    simp only [Ty.levels, Ty.levelsOfOption, List.mem_cons, exists_eq_or_imp,
      Ty.appliedFeature?, Option.some.injEq, exists_eq_left']
    tauto

theorem Regular.settledBy_replace {unfold : TypeId → Ty} (regular : table.Regular unfold)
    (fits : table.Fits feature args.length)
    (closed : ∀ arg ∈ args, arg.Over (fun _ => False) table.Declares) {around target : Ty}
    (covered : target.Over
      (table.SettledBy (.applied feature args (some around) isRef isThis)) table.Declares) :
    (target.replace (table.resolution unfold feature args)).Over (table.SettledBy around)
      table.Declares := by
  apply Ty.Over.replace
  apply covered.mono
  intro id settled
  by_cases inherits : table.Inherits feature id.feature
  · have resolves := regular.resolves_resolution fits fun _ => settled.1
    exact (resolves.over_formals regular fits inherits closed).mono fun _ => False.elim
  · rw [resolution_eq regular.acyclic (.unrelated inherits), Ty.over_formal_iff]
    rcases settledBy_applied_iff.mp settled with reaches | ⟨_, present, left⟩
    · exact absurd reaches.1 inherits
    · rwa [Option.some.inj present]

end FeatureTable

namespace Checker

open Filter

theorem exists_closing_replacement {start : Checker} (wellFormed : start.WellFormed)
    (regular : start.features.Regular start.types.tree) {source target : Ty}
    (chain : source.Chain fun feature args => start.features.Fits feature args.length)
    (closed : source.Over (fun _ => False) start.features.Declares)
    (covered : target.Over (start.features.SettledBy source) start.features.Declares) :
    ∃ replacement : FormalId → Ty,
      (target.replace replacement).Over (fun _ => False) start.features.Declares ∧
        start.Sees source target replacement := by
  -- From the outermost type inwards, for all targets at once.
  induction chain generalizing target with
  | @applied feature args outer isRef isThis fits _ fromOuter =>
    obtain ⟨_, argsClosed, outerClosed⟩ := Ty.over_applied_iff.mp closed
    have substitutable : start.features.Substitutable feature args target :=
      ⟨fits, fun arg member => (argsClosed arg member).ne_error,
        covered.mono fun _ settled _ => settled.1⟩
    cases outer with
    | none =>
      have reached : target.Over (start.features.Reaches feature) start.features.Declares := by
        apply covered.mono
        intro id settled
        simpa using FeatureTable.settledBy_applied_iff.mp settled
      exact ⟨_, regular.over_replace_resolution fits reached argsClosed,
        sees_outermost wellFormed regular substitutable isRef isThis⟩
    | some around =>
      obtain ⟨replacement, resultClosed, sees⟩ := fromOuter around rfl (outerClosed around rfl)
        (regular.settledBy_replace fits argsClosed covered)
      rw [Ty.replace_replace] at resultClosed
      exact ⟨_, resultClosed, sees_inside wellFormed regular substitutable sees isRef isThis⟩

theorem mentionsFormal_eq_false {types : TypeStore} (coherent : types.Coherent) {id : TypeId}
    {ty : Ty} (denotes : types.Denotes id ty) {features : FeatureId → Prop}
    (closed : ty.Over (fun _ => False) features) : types.mentionsFormal id = false := by
  rw [TypeStore.mentionsFormal_eq coherent denotes.1, denotes.2, Ty.mentionsFormal,
    List.any_eq_false]
  intro part occurs
  have holds := closed part occurs
  cases part with
  | formal id boxed => exact holds.elim
  | _ => exact Bool.false_ne_true

/-- A target whose formals are all settled by a closed type is seen from it without formals and
without errors, and nothing is reported. -/
theorem substituteVia_closed
    (start : Checker) (wellFormed : start.WellFormed)
    (regular : start.features.Regular start.types.tree)
    (source target : TypeId) (held : ∀ ty ∈ [source, target], start.types.Holds ty)
    (chain : (start.types.tree source).Chain fun feature args =>
      start.features.Fits feature args.length)
    (closed : (start.types.tree source).Over (fun _ => False) start.features.Declares)
    (covered : (start.types.tree target).Over
      (start.features.SettledBy (start.types.tree source)) start.features.Declares) :
    ∃ enough, ∀ checker : Checker, checker.types = start.types →
      checker.features = start.features → checker.Faithful → enough ≤ checker.options.depthLimit →
        ∃ result after, (substituteVia source target).run checker = .ok result after ∧
          after.reports = checker.reports ∧ after.types.mentionsFormal result = false ∧
          after.types.mentionsError result = false := by
  simp only [List.forall_mem_cons] at held
  obtain ⟨sourceHeld, targetHeld, _⟩ := held
  obtain ⟨replacement, resultClosed, sees⟩ :=
    exists_closing_replacement wellFormed regular chain closed covered
  obtain ⟨enough, sees⟩ := eventually_atTop.mp sees
  refine ⟨enough, fun checker typesEq featuresEq faithful deep => ?_⟩
  have denotes : ∀ {ty : TypeId}, start.types.Holds ty →
      checker.types.Denotes ty (start.types.tree ty) := by
    intro ty tyHeld
    rw [typesEq]
    exact ⟨tyHeld, rfl⟩
  have realizes := realizes_substituteVia
    (Resumes.of_faithful typesEq featuresEq faithful (· ≠ .error)) (denotes sourceHeld)
    (denotes targetHeld)
  rw [sees _ deep] at realizes
  obtain ⟨result, after, run, resumes, _, resultDenotes⟩ := realizes.exists_run
  have coherent := resumes.types_canonical.toCoherent
  exact ⟨result, after, run, (resumes.quiet (· rfl)).1,
    mentionsFormal_eq_false coherent resultDenotes resultClosed,
    (TypeStore.Whole.of_denotes coherent resultDenotes resultClosed.whole).2⟩

/-- The target mentions a formal that the outer type of the source settles and one that an
ancestor of the feature of the source declares. -/
theorem substituteVia_closed_cursor :
    let start := afterAll
      [.declare (.feature "any" none true), .construct (.instantiate ⟨1⟩ []),
        .declare (.feature "list" none true), .declare (.formal ⟨2⟩ "T" ⟨3⟩ false {}),
        .declare (.feature "sequence" none true), .declare (.formal ⟨3⟩ "S" ⟨3⟩ false {}),
        .declare (.feature "cursor" none true), .declare (.parent ⟨4⟩ ⟨3⟩ [⟨3⟩]),
        .construct (.applied ⟨2⟩ [⟨3⟩] none true),
        .construct (.applied ⟨4⟩ [] (some ⟨7⟩) true),
        .construct (.applied ⟨3⟩ [⟨4⟩] none true),
        .construct (.applied ⟨2⟩ [⟨5⟩] (some ⟨9⟩) true)] {}
    start.features.Regular start.types.tree ∧ start.types.mentionsFormal ⟨10⟩ = true ∧
      ∃ enough, ∀ depthLimit ≥ enough, ∃ result after,
        (substituteVia ⟨8⟩ ⟨10⟩).run (start.limited depthLimit) = .ok result after ∧
        after.types.mentionsFormal result = false := by
  intro start
  have reachable : start.Reachable := (Reachable.initial {} {}).steps (by decide +kernel)
  have regular : start.features.Regular start.types.tree := by
    refine ⟨FeatureTable.acyclic_of_index_lt ?_, ?_, ?_, ?_, ?_⟩
    all_goals exact FeatureTable.forall_declared (by decide +kernel)
  have sourceEq : start.types.tree ⟨8⟩ = .applied ⟨4⟩ [] (some (.applied ⟨2⟩
      [.applied ⟨1⟩ [] none true false] none true false)) true false := by decide +kernel
  have chain : (start.types.tree ⟨8⟩).Chain fun feature args =>
      start.features.Fits feature args.length := by
    rw [sourceEq]
    refine .applied (by decide +kernel) fun around present => ?_
    obtain rfl := Option.some.inj present
    exact .applied (by decide +kernel) (by simp)
  have mentioned : (start.types.tree ⟨10⟩).Over (· ∈ [⟨⟨2⟩, 0⟩, ⟨⟨3⟩, 0⟩])
      start.features.Declares := by decide +kernel
  have settled : ∀ id ∈ [(⟨⟨2⟩, 0⟩ : FormalId), ⟨⟨3⟩, 0⟩],
      start.features.SettledBy (start.types.tree ⟨8⟩) id := by
    simp only [sourceEq, List.forall_mem_cons]
    refine ⟨FeatureTable.settledBy_applied_iff.mpr (.inr ⟨_, rfl, ?_⟩),
      FeatureTable.settledBy_applied_iff.mpr (.inl ⟨?_, by decide +kernel⟩), by simp⟩
    · exact FeatureTable.settledBy_applied_iff.mpr (.inl ⟨.refl, by decide +kernel⟩)
    · exact .single (by decide +kernel)
  obtain ⟨enough, runs⟩ := substituteVia_closed start reachable.sound.toWellFormed regular ⟨8⟩ ⟨10⟩
    (by decide +kernel) chain (by decide +kernel) (mentioned.mono settled)
  have faithful : start.Faithful := reachable.faithful (by decide +kernel)
  refine ⟨regular, by decide +kernel, enough, fun depthLimit deep => ?_⟩
  clear_value start
  obtain ⟨result, after, run, _, closed, _⟩ :=
    runs (start.limited depthLimit) rfl rfl (faithful.limited depthLimit) deep
  exact ⟨result, after, run, closed⟩

end Checker

end FeatureTypes

import FeatureTypes.Proofs.Checker.Upkeep
import FeatureTypes.Proofs.Feature.Ancestry
import FeatureTypes.Proofs.Feature.Lawful
import FeatureTypes.Proofs.Meaning.Smooth
import FeatureTypes.Proofs.Ty.Levels

/-!
# Enclosing instances as seen from a call

The types of enclosing instances are replaced level by level: first by the target of the
call, then by its outer type, and so on.  If none occurs in the target, this comes to one
replacement of all of them at once.
-/

namespace FeatureTypes

variable {level : Ty}

/-! ## The levels of a call -/

namespace FeatureTable

/-- The feature whose instances have the type `level`: the one that it applies, or for a
formal the one that its constraint applies. -/
def levelFeature? (table : FeatureTable) (unfold : TypeId → Ty) : (level : Ty) → Option FeatureId
  | .formal id _ => (table.formalsOf id.feature)[id.index]?.bind fun formal =>
    (unfold formal.constraint).appliedFeature?
  | level => level.appliedFeature?

/-- The instances of the type `level` are instances of the feature `id`. -/
def LevelInherits (table : FeatureTable) (unfold : TypeId → Ty) (level : Ty) (id : FeatureId) :
    Prop :=
  ∃ heir, table.levelFeature? unfold level = some heir ∧ table.Inherits heir id

open Classical in
/-- The first of the levels whose instances are instances of the feature `id`. -/
noncomputable def levelFor (table : FeatureTable) (unfold : TypeId → Ty) (levels : List Ty)
    (id : FeatureId) : Option Ty :=
  levels.find? fun level => table.LevelInherits unfold level id

/-- The features that decide whose instances have the type `level` are declared. -/
def DeclaresLevel (table : FeatureTable) (unfold : TypeId → Ty) : (level : Ty) → Prop
  | .formal id boxed => table.Declares id.feature ∧
    ∀ heir ∈ table.levelFeature? unfold (.formal id boxed), table.Declares heir
  | .applied feature _ _ _ _ => table.Declares feature
  | .error | .void | .undefined => True

instance (table : FeatureTable) (unfold : TypeId → Ty) : DecidablePred (table.DeclaresLevel unfold)
  | .formal _ _ => inferInstanceAs (Decidable (_ ∧ _))
  | .applied feature _ _ _ _ => inferInstanceAs (Decidable (table.Declares feature))
  | .error | .void | .undefined => isTrue trivial

variable {table : FeatureTable} {unfold : TypeId → Ty}

theorem DeclaresLevel.heir (declares : table.DeclaresLevel unfold level) {heir : FeatureId}
    (isHeir : table.levelFeature? unfold level = some heir) : table.Declares heir := by
  cases level with
  | formal id boxed => exact declares.2 heir isHeir
  | applied feature args outer isRef isThis => exact Option.some.inj isHeir ▸ declares
  | _ => cases isHeir

theorem levelFor_singleton (level : Ty) (id : FeatureId)
    [Decidable (table.LevelInherits unfold level id)] :
    table.levelFor unfold [level] id =
      if table.LevelInherits unfold level id then some level else none := by
  by_cases inherits : table.LevelInherits unfold level id <;> simp [levelFor, inherits]

theorem levelFor_cons (level : Ty) (rest : List Ty) :
    table.levelFor unfold (level :: rest) = fun id =>
      (table.levelFor unfold [level] id).or (table.levelFor unfold rest id) := by
  funext id
  by_cases inherits : table.LevelInherits unfold level id <;> simp [levelFor, inherits]

theorem settles_levelFor {levels : List Ty} (idle : ∀ level ∈ levels, level.mentionsThis = false) :
    Ty.Settles (table.levelFor unfold levels) :=
  fun _ level found => idle level (List.mem_of_find?_eq_some found)

end FeatureTable

theorem Ty.levels_idle {ty : Ty} (idle : ty.mentionsThis = false) :
    ∀ level ∈ ty.levels, level.mentionsThis = false := by
  induction ty with
  | applied feature args outer isRef isThis _ outerIdle =>
    rw [levels, List.forall_mem_cons]
    refine ⟨idle, ?_⟩
    cases outer with
    | none => simp [levelsOfOption]
    | some around =>
      exact outerIdle around rfl ((mentionsThis_eq_false_iff.mp idle).2 around
        (List.mem_append_right _ (by simp)))
  | _ => simpa [levels] using idle

theorem Ty.transform_eq_replaceThis {visit : Ty → Option (Option Ty)}
    {levelFor : FeatureId → Option Ty} (visits : ∀ ty, visit ty = some (ty.standIn levelFor))
    (ty : Ty) : ty.transform visit = some (ty.replaceThis levelFor) := by
  induction ty with
  | applied feature args outer isRef isThis argsReplaced outerReplaced =>
    rw [replaceThis_eq]
    cases isStandIn : (Ty.applied feature args outer isRef isThis).standIn levelFor with
    | some level => exact transform_of_settled ((visits _).trans (congrArg some isStandIn))
    | none =>
      rw [transform_of_left ((visits _).trans (congrArg some isStandIn)), transformParts,
        mapM_eq_some_map argsReplaced, optionMapM_eq_some_map outerReplaced]
      rfl
  | _ => exact transform_of_left (visits _)

namespace Checker

section

variable {start : Checker}

/-! ## One level -/

theorem signature_levelFeature?
    (declares : start.features.DeclaresLevel start.types.tree level) :
    start.signature.levelFeature? level =
      some (start.features.levelFeature? start.types.tree level) := by
  cases level with
  | formal id boxed =>
    obtain ⟨declared, found⟩ := declares.1.exists_get
    rw [Signature.levelFeature?, Signature.constraint?, signature_formal? found rfl,
      FeatureTable.levelFeature?, FeatureTable.formalsOf_eq found]
    cases declared.formals[id.index]? <;> rfl
  | _ => rfl

variable (closed : start.features.Closed)

include closed

theorem signature_levelInherits
    (declares : start.features.DeclaresLevel start.types.tree level) (id : FeatureId) :
    ∃ answer, start.signature.levelInherits level id = some answer ∧
      (answer = true ↔ start.features.LevelInherits start.types.tree level id) := by
  rw [Signature.levelInherits, signature_levelFeature? declares, FeatureTable.LevelInherits]
  cases heirEq : start.features.levelFeature? start.types.tree level with
  | none => exact ⟨false, rfl, by simp⟩
  | some heir =>
    obtain ⟨answer, answered, answerIff⟩ := closed.inheritsFrom_ok (declares.heir heirEq) id
    refine ⟨answer, ?_, by simpa using answerIff⟩
    simp [signature, answered, Except.toOption]

theorem replaceThisByLevel_eq (declares : start.features.DeclaresLevel start.types.tree level)
    (ty : Ty) : start.signature.replaceThisByLevel level ty =
      some (ty.replaceThis (start.features.levelFor start.types.tree [level])) := by
  classical
  refine Ty.transform_eq_replaceThis (fun part => ?_) ty
  cases part with
  | applied feature args outer isRef isThis =>
    cases isThis with
    | false => rfl
    | true =>
      obtain ⟨answer, answered, answerIff⟩ := signature_levelInherits closed declares feature
      rw [Signature.replaceThisByLevelAt, answered, Ty.standIn, FeatureTable.levelFor_singleton]
      simp [← answerIff]
  | _ => rfl

/-! ## All levels -/

theorem replaceThis_eq_levels {target : Ty} (idle : target.mentionsThis = false)
    (declares : ∀ level ∈ target.levels, start.features.DeclaresLevel start.types.tree level)
    (ty : Ty) : start.signature.replaceThis ty target =
      some (ty.replaceThis (start.features.levelFor start.types.tree target.levels)) := by
  induction target generalizing ty with
  | applied feature args outer isRef isThis _ fromOuter =>
    rw [Ty.levels, List.forall_mem_cons] at declares
    rw [Signature.replaceThis, replaceThisByLevel_eq closed declares.1, Ty.levels]
    cases outer with
    | none => rfl
    | some around =>
      have aroundIdle := (Ty.mentionsThis_eq_false_iff.mp idle).2 around
        (List.mem_append_right _ (by simp))
      have settles : Ty.Settles (start.features.levelFor start.types.tree
          [.applied feature args (some around) isRef isThis]) :=
        FeatureTable.settles_levelFor (List.forall_mem_singleton.mpr idle)
      -- The level mentions no this-type, so what it replaced stays as it is.
      refine (fromOuter around rfl aroundIdle declares.2 _).trans (congrArg some ?_)
      rw [settles.replaceThis_replaceThis, Ty.levelsOfOption,
        FeatureTable.levelFor_cons _ around.levels]
  | _ =>
    rw [Signature.replaceThis, replaceThisByLevel_eq closed (declares _ (by simp [Ty.levels]))]
    rfl

end

/-- Replacing enclosing instances level by level replaces each of them at once by the first level
whose feature inherits from its feature, and nothing else.  None is left if each has such
a level. -/
theorem replaceThis_simultaneous
    (checker : Checker) (reachable : checker.Reachable) (ty target : TypeId)
    (held : ∀ id ∈ [ty, target], checker.types.Holds id)
    (idle : checker.types.mentionsThis target = false)
    (declares : ∀ level ∈ (checker.types.tree target).levels,
      checker.features.DeclaresLevel checker.types.tree level) :
    ∃ result after, (replaceThis ty target).run checker = .ok result after ∧
      after.types.Holds result ∧
      after.types.tree result = (checker.types.tree ty).replaceThis
        (checker.features.levelFor checker.types.tree (checker.types.tree target).levels) ∧
      ((∀ part ∈ (checker.types.tree ty).parts, part.isThis = true →
          ∀ id ∈ part.appliedFeature?, ∃ level ∈ (checker.types.tree target).levels,
            checker.features.LevelInherits checker.types.tree level id) →
        after.types.mentionsThis result = false) := by
  simp only [List.forall_mem_cons] at held
  obtain ⟨tyHeld, targetHeld, _⟩ := held
  have wellFormed := reachable.sound.toWellFormed
  have closed := reachable.built.orderly.closed
  rw [TypeStore.mentionsThis_eq wellFormed.types_canonical.toCoherent targetHeld] at idle
  have resumes : checker.Resumes (fun _ => True) checker.unmemoized checker.unmemoized :=
    ⟨checker.follows_signature.obeys_unmemoized wellFormed, rfl, absurd trivial,
      fun frozen => absurd trivial (frozen .error)⟩
  have denotes : ∀ {id : TypeId}, checker.types.Holds id →
      checker.unmemoized.types.Denotes id (checker.types.tree id) := fun held => ⟨held, rfl⟩
  have realizes := realizes_replaceThis (.smooth checker _ _) (fun _ _ => trivial) resumes
    (denotes tyHeld) (denotes targetHeld)
  rw [replaceThis_eq_levels closed idle declares] at realizes
  obtain ⟨result, other, run, _, _, resultDenotes⟩ := realizes.exists_run
  -- Nothing that is remembered plays a part, so it may be as it is.
  have stable : Lockstep.Stable fun _ _ => True := fun _ _ _ _ _ => trivial
  let pair : Lockstep.Pair fun _ _ => True :=
    ⟨checker.unmemoized, checker, wellFormed.twins.unmemoized.symm, trivial⟩
  have sameTy : (lockstep _).same pair ty ty := ⟨rfl, tyHeld⟩
  have coupled := (Lockstep.core stable).replaceThis sameTy ⟨rfl, targetHeld⟩
  simp only [lockstep] at coupled
  change Lockstep.Outcome pair _ (EStateM.run _ checker.unmemoized) _ at coupled
  rw [run] at coupled
  obtain ⟨next, rfl, result', run', resultEq, _⟩ := coupled.exists_pair
  obtain rfl : result' = result := resultEq
  rw [← next.twins.types_eq] at resultDenotes
  refine ⟨result', next.second, run', resultDenotes.1, resultDenotes.2, fun found => ?_⟩
  rw [TypeStore.mentionsThis_eq next.twins.wellFormed_twin.types_canonical.toCoherent
    resultDenotes.1, resultDenotes.2]
  refine (FeatureTable.settles_levelFor (Ty.levels_idle idle)).mentionsThis_replaceThis ?_
  intro part occurs isThis
  cases part with
  | applied feature args outer isRef isThis' =>
    obtain rfl : isThis' = true := isThis
    obtain ⟨level, member, inherits⟩ := found _ occurs rfl feature rfl
    rw [Ty.standIn, FeatureTable.levelFor, ne_eq, List.find?_eq_none]
    exact fun unrelated => unrelated level member (by simpa using inherits)
  | _ => cases isThis

/-- Seen from a core in its shell, both the enclosing core and the enclosing ancestor of the shell
have a level, the core itself and the shell around it. -/
theorem replaceThis_simultaneous_core_in_shell :
    let start := afterAll [.declare (.feature "any" none true),
      .declare (.feature "shell" none false), .declare (.parent ⟨2⟩ ⟨1⟩ []),
      .declare (.feature "core" (some ⟨2⟩) false), .construct (.selfType ⟨3⟩),
      .construct (.asThis ⟨3⟩), .construct (.asThis ⟨5⟩),
      .construct (.applied ⟨1⟩ [⟨6⟩, ⟨7⟩] none false)] {}
    start.types.tree ⟨8⟩ = .applied ⟨1⟩ [.applied ⟨1⟩ [] none true true,
        .applied ⟨3⟩ [] (some (.applied ⟨2⟩ [] none false false)) false true] none false false ∧
      (start.types.tree ⟨5⟩).levels = [.applied ⟨3⟩ [] (some (.applied ⟨2⟩ [] none false false))
        false false, .applied ⟨2⟩ [] none false false] ∧
      start.types.mentionsThis ⟨8⟩ = true ∧
      ∃ result after, (replaceThis ⟨8⟩ ⟨5⟩).run start = .ok result after ∧
        after.types.tree result = (start.types.tree ⟨8⟩).replaceThis
          (start.features.levelFor start.types.tree (start.types.tree ⟨5⟩).levels) ∧
        after.types.mentionsThis result = false := by
  intro start
  have reachable : start.Reachable := (Reachable.initial {} {}).steps (by decide +kernel)
  have tyTree : start.types.tree ⟨8⟩ = .applied ⟨1⟩ [.applied ⟨1⟩ [] none true true,
      .applied ⟨3⟩ [] (some (.applied ⟨2⟩ [] none false false)) false true] none false false := by
    decide +kernel
  have levels : (start.types.tree ⟨5⟩).levels = [.applied ⟨3⟩ [] (some (.applied ⟨2⟩ [] none
      false false)) false false, .applied ⟨2⟩ [] none false false] := by decide +kernel
  have mentions : start.types.mentionsThis ⟨8⟩ = true := by decide +kernel
  have held : ∀ id ∈ [⟨8⟩, ⟨5⟩], start.types.Holds id := by decide +kernel
  have idle : start.types.mentionsThis ⟨5⟩ = false := by decide +kernel
  have declares : ∀ level ∈ (start.types.tree ⟨5⟩).levels,
      start.features.DeclaresLevel start.types.tree level := by decide +kernel
  have hasParent : start.features.HasParent ⟨2⟩ ⟨1⟩ := by decide +kernel
  clear_value start
  obtain ⟨result, after, run, _, tree, settled⟩ :=
    replaceThis_simultaneous start reachable ⟨8⟩ ⟨5⟩ held idle declares
  refine ⟨tyTree, levels, mentions, result, after, run, tree, settled ?_⟩
  rw [tyTree, levels]
  intro part occurs isThis id applied
  have coreOrAny : id = ⟨3⟩ ∨ id = ⟨1⟩ := by
    simp only [Ty.parts, Ty.partsOfList, Ty.partsOfOption, List.append_nil, List.cons_append,
      List.nil_append, List.mem_cons, List.not_mem_nil, or_false] at occurs
    rcases occurs with rfl | rfl | rfl | rfl <;> simp_all [Ty.isThis, Ty.appliedFeature?]
  obtain rfl | rfl := coreOrAny
  · exact ⟨_, List.mem_cons_self, ⟨3⟩, rfl, .refl⟩
  · exact ⟨_, List.mem_cons_of_mem _ List.mem_cons_self, ⟨2⟩, rfl, .single hasParent⟩

end Checker

end FeatureTypes

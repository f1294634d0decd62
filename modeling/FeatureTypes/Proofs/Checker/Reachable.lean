import FeatureTypes.Proofs.Lockstep.Alike
import FeatureTypes.Proofs.Lockstep.Operation
import FeatureTypes.Proofs.Replay

/-!
# Reachable checkers

An operation may fail, and work goes on from what it left behind, unless its calls nested
too deeply.
-/

namespace FeatureTypes.Checker

variable {checker : Checker}

/-- The checker that an operation leaves behind, whether it fails or not. -/
def Operation.after (operation : Operation) (checker : Checker) : Checker :=
  match operation.run.run checker with
  | .ok _ after => after
  | .error _ after => after

/-- Whether the calls of the operation stay within the depth limit. -/
def Operation.completes (operation : Operation) (checker : Checker) : Bool :=
  match operation.run.run checker with
  | .ok _ _ => true
  | .error failure _ => failure ≠ .depthExceeded

/-- The checkers that operations on stored types lead to. -/
inductive Reachable : Checker → Prop
  | initial (options : Options) (journal : Journal) : Reachable { options, journal }
  | step {checker : Checker} (reachable : Reachable checker) (operation : Operation)
      (held : ∀ ty ∈ operation.uses, checker.types.Holds ty)
      (completes : operation.completes checker = true) :
      Reachable (operation.after checker)

/-- The checker that some operations in a row leave behind. -/
def afterAll (operations : List Operation) (checker : Checker) : Checker :=
  operations.foldl (fun checker operation => operation.after checker) checker

/-- Some operations in a row use stored types and stay within the depth limit. -/
def Admits (checker : Checker) : (operations : List Operation) → Prop
  | [] => True
  | operation :: rest =>
    (∀ ty ∈ operation.uses, checker.types.Holds ty) ∧ operation.completes checker = true ∧
      (operation.after checker).Admits rest

instance decidableAdmits :
    (checker : Checker) → (operations : List Operation) → Decidable (checker.Admits operations)
  | _, [] => inferInstanceAs (Decidable True)
  | checker, operation :: rest =>
    have := decidableAdmits (operation.after checker) rest
    inferInstanceAs (Decidable (_ ∧ _ ∧ _))

/-- Operations that complete one after the other lead to a reachable checker. -/
theorem Reachable.steps (reachable : checker.Reachable) {operations : List Operation}
    (admits : checker.Admits operations) : (afterAll operations checker).Reachable := by
  induction operations generalizing checker with
  | nil => exact reachable
  | cons operation rest ih =>
    obtain ⟨held, completes, admits⟩ := admits
    exact ih (reachable.step operation held completes) admits

theorem Sound.twins (sound : checker.Sound) : checker.Twins checker :=
  sound.toWellFormed.twins

theorem Sound.alike (sound : checker.Sound) : Lockstep.Alike checker checker :=
  ⟨rfl, fun _ => rfl, fun _ => rfl, sound.memos_stored⟩

theorem memosStored_of_empty (byOwner : checker.byOwner.entries.isEmpty = true)
    (viaType : checker.viaType.entries.isEmpty = true) : checker.MemosStored where
  byOwner_held key result found := by simp [Std.TreeMap.getElem?_of_isEmpty byOwner] at found
  viaType_held key result found := by simp [Std.TreeMap.getElem?_of_isEmpty viaType] at found

/-- Clearing forgets what is remembered and nothing else. -/
theorem run_clearMemos (checker : Checker) :
    ∃ after, clearMemos.run checker = .ok () after ∧ checker.Idles after ∧
      after.byOwner.entries.isEmpty = true ∧ after.viaType.entries.isEmpty = true := by
  obtain ⟨after, run, idle, _⟩ := Rests.record checker
    (.memosCleared checker.byOwner.size checker.viaType.size)
  refine ⟨{ after with byOwner := after.byOwner.clear, viaType := after.viaType.clear }, ?_,
    { idle with }, rfl, rfl⟩
  simp only [clearMemos, EStateM.run_bind, EStateM.run_get, run]
  rfl

end FeatureTypes.Checker

namespace FeatureTypes.Lockstep

open Checker Coupling

theorem detached_alike : Detached Alike where
  stable := alike_growing.stable
  rewrite _ alike := ⟨alike.memoize_eq, alike.byOwner_eq, alike.viaType_eq,
    fun on => ⟨(alike.stored on).byOwner_held, (alike.stored on).viaType_held⟩⟩

/-- A sound checker in lockstep with itself. -/
def Pair.diagonal {checker : Checker} (sound : checker.Sound) : Pair Alike :=
  ⟨checker, checker, sound.twins, sound.alike⟩

theorem Pair.sound (pair : Pair Alike) : pair.first.Sound :=
  { pair.twins.wellFormed with memos_stored := pair.related.stored }

theorem after_of_couples {memos : Checker → Checker → Prop} {pair : Pair memos}
    {operation : Operation}
    (coupled : (lockstep memos).couples pair operation.run operation.run (lockstep memos).Agrees)
    (completes : operation.completes pair.first = true) :
    ∃ next : Pair memos, next.first = operation.after pair.first ∧
      pair.first.Later next.first := by
  simp only [lockstep] at coupled
  unfold Operation.after
  unfold Operation.completes at completes
  generalize operation.run.run pair.first = outcome at coupled completes ⊢
  generalize operation.run.run pair.second = outcome' at coupled
  cases coupled with
  | ok next later => exact ⟨next, rfl, later⟩
  | failed failure next later => exact ⟨next, rfl, later⟩
  | exhausted checker => simp at completes

end FeatureTypes.Lockstep

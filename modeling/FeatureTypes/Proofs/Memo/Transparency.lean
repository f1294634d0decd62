import FeatureTypes.Proofs.Lockstep.Marked
import FeatureTypes.Proofs.Memo.Simulation

/-!
# Memoization is transparent

A checker that remembers results and one that does not are asked the same questions, with
declarations in between.  If the memo tables are cleared after declarations, before the
engine is asked again, then nobody can tell the two apart.
-/

namespace FeatureTypes.Checker

/-! ## What is seen of a sequence of operations -/

/-- What is seen of one operation: its answer, the types after it, and whether
anything was reported so far; or why it failed. -/
inductive Observation where
  | answered (answer : Answer) (types : TypeStore) (reported : Bool)
  | failed (failure : Failure)

/-- What is seen of some operations in a row.  The first failure ends it. -/
def observe : (operations : List Operation) → (checker : Checker) → List Observation
  | [], _ => []
  | operation :: rest, checker =>
    match operation.run.run checker with
    | .ok answer after =>
      .answered answer after.types (decide (0 < after.reports.size)) :: observe rest after
    | .error failure _ => [.failed failure]

/-- No operation nests its calls too deeply. -/
def Completes : (operations : List Operation) → (checker : Checker) → Prop
  | [], _ => True
  | operation :: rest, checker =>
    match operation.run.run checker with
    | .ok _ after => Completes rest after
    | .error failure _ => failure ≠ .depthExceeded

/-- Whether the operation may come next; `clean` says that nothing was declared
since the memo tables were last cleared. -/
def Operation.fits (clean : Bool) : Operation → Bool
  | .call _ => clean
  | .construct _ | .declare _ | .companion _ | .clearMemos => true
  | .takeReports | .restart _ _ => false

/-- Whether nothing is declared any more since the memo tables were cleared, after
the operation. -/
def Operation.leaves (clean : Bool) : Operation → Bool
  | .declare _ => false
  | .clearMemos => true
  | _ => clean

/-- All operations use stored types, reports are never taken away, and the engine
is not asked between a declaration and the next clearing of the memo tables. -/
def Disciplined : (clean : Bool) → (operations : List Operation) → (checker : Checker) → Prop
  | _, [], _ => True
  | clean, operation :: rest, checker =>
    operation.fits clean = true ∧ (∀ ty ∈ operation.uses, checker.types.Holds ty) ∧
      match operation.run.run checker with
      | .ok _ after => Disciplined (operation.leaves clean) rest after
      | .error _ _ => True

instance decidableCompletes :
    (operations : List Operation) → (checker : Checker) → Decidable (Completes operations checker)
  | [], _ => inferInstanceAs (Decidable True)
  | operation :: rest, checker =>
    show Decidable (match operation.run.run checker with
      | .ok _ after => Completes rest after
      | .error failure _ => failure ≠ .depthExceeded) from
    match operation.run.run checker with
    | .ok _ after => decidableCompletes rest after
    | .error failure _ => inferInstanceAs (Decidable (failure ≠ .depthExceeded))

instance decidableDisciplined :
    (clean : Bool) → (operations : List Operation) → (checker : Checker) →
      Decidable (Disciplined clean operations checker)
  | _, [], _ => inferInstanceAs (Decidable True)
  | clean, operation :: rest, checker =>
    have : Decidable (match operation.run.run checker with
        | .ok _ after => Disciplined (operation.leaves clean) rest after
        | .error _ _ => True) :=
      match operation.run.run checker with
      | .ok _ after => decidableDisciplined (operation.leaves clean) rest after
      | .error _ _ => isTrue trivial
    inferInstanceAs (Decidable (_ ∧ _ ∧ _))

/-- The checker started anew with other options: it remembers nothing, and keeps its
types, features and reports. -/
def restarted (checker : Checker) (options : Options) : Checker :=
  { checker with byOwner := {}, viaType := {}, options }

end FeatureTypes.Checker

namespace FeatureTypes.Lockstep

variable {twin checker : Checker}

open Checker Coupling

/-! ## One operation -/

/-- The first checker remembers nothing, and the second one may remember anything. -/
structure Forgetful (checker twin : Checker) : Prop where
  off : checker.options.memoize = false
  on : twin.options.memoize = true

theorem forgetful_growing : Growing Forgetful := by
  intro checker twin checker' twin' forgetful _ _ first second
  refine ⟨?_, ?_⟩
  · rw [first.options_eq, forgetful.off]
  · rw [second.options_eq, forgetful.on]

theorem detached_forgetful : Detached Forgetful where
  stable := forgetful_growing.stable
  rewrite _ forgetful := ⟨forgetful.off, forgetful.on⟩

/-- What is known about the memo tables: they are sound while they are clean. -/
def memosWhen : (clean : Bool) → Checker → Checker → Prop
  | true => Simulated
  | false => Forgetful

theorem forgetful_of_memosWhen {clean : Bool} (related : memosWhen clean checker twin) :
    Forgetful checker twin := by
  cases clean with
  | true => exact ⟨related.off, related.on⟩
  | false => exact related

theorem memosWhen_growing (clean : Bool) : Growing (memosWhen clean) := by
  cases clean with
  | true => exact simulated_growing
  | false => exact forgetful_growing

/-- Two checkers give the same answer and stay related, or fail alike, or the first
one nests its calls too deeply. -/
def Alternatives (related : Checker → Checker → Prop) (operation : CheckM Answer)
    (checker twin : Checker) : Prop :=
  (∃ answer checker' twin', operation.run checker = .ok answer checker' ∧
      operation.run twin = .ok answer twin' ∧ checker'.Twins twin' ∧ related checker' twin') ∨
    (∃ failure checker' twin', operation.run checker = .error failure checker' ∧
      operation.run twin = .error failure twin') ∨
    ∃ checker', operation.run checker = .error .depthExceeded checker'

theorem alternatives_of_couples {memos : Checker → Checker → Prop} {pair : Pair memos}
    {operation : CheckM Answer}
    (coupled : (lockstep memos).couples pair operation operation (lockstep memos).Agrees) :
    Alternatives memos operation pair.first pair.second := by
  simp only [lockstep] at coupled
  unfold Alternatives
  generalize operation.run pair.first = outcome at coupled ⊢
  generalize operation.run pair.second = outcome' at coupled ⊢
  cases coupled with
  | ok next _ agree =>
    obtain rfl := agree
    exact Or.inl ⟨_, next.first, next.second, rfl, rfl, next.twins, next.related⟩
  | failed failure next =>
    exact Or.inr (Or.inl ⟨failure, next.first, next.second, rfl, rfl⟩)
  | exhausted checker => exact Or.inr (Or.inr ⟨checker, rfl⟩)

theorem alternatives_clearMemos (twins : checker.Twins twin) (forgetful : Forgetful checker twin) :
    Alternatives Simulated Operation.clearMemos.run checker twin := by
  obtain ⟨after, run, idle, _, _⟩ := run_clearMemos checker
  obtain ⟨after', run', idle', byOwner, viaType⟩ := run_clearMemos twin
  refine Or.inl ⟨.none, after, after', ?_, ?_, ?_, ?_, ?_, memosSound_of_empty byOwner viaType⟩
  · simp only [Operation.run, EStateM.run_bind, run]
    rfl
  · simp only [Operation.run, EStateM.run_bind, run']
    rfl
  · exact (idle.twins twins.wellFormed).symm.trans (twins.trans (idle'.twins twins.wellFormed_twin))
  · rw [idle.options_eq, forgetful.off]
  · rw [idle'.options_eq, forgetful.on]

theorem alternatives_operation {clean : Bool} (operation : Operation) (twins : checker.Twins twin)
    (related : memosWhen clean checker twin) (fits : operation.fits clean = true)
    (held : ∀ ty ∈ operation.uses, checker.types.Holds ty) :
    Alternatives (memosWhen (operation.leaves clean)) operation.run checker twin := by
  let pair : Pair (memosWhen clean) := ⟨checker, twin, twins, related⟩
  have core := core (Growing.stable (memosWhen_growing clean))
  cases operation with
  | construct construction =>
    have coupled : (lockstep _).couples pair _ _ _ :=
      couples_construction core construction held
    exact alternatives_of_couples coupled
  | declare declaration =>
    let pair : Pair Forgetful := ⟨checker, twin, twins, forgetful_of_memosWhen related⟩
    have coupled : (lockstep _).couples pair _ _ _ :=
      detached_forgetful.couples_declaration declaration held
    exact alternatives_of_couples coupled
  | companion id =>
    have coupled : (lockstep _).couples pair _ _ _ :=
      couples_companion core (couples_companion? (memosWhen_growing clean) id)
    exact alternatives_of_couples coupled
  | call request =>
    obtain rfl : clean = true := fits
    have coupled : (lockstep _).couples pair _ _ _ :=
      couples_call transparent_simulated.full request held
    exact alternatives_of_couples coupled
  | clearMemos => exact alternatives_clearMemos twins (forgetful_of_memosWhen related)
  | takeReports => cases fits
  | restart options keepReports => cases fits

/-! ## Sequences of operations -/

/-- By induction on the operations, with the memo tables cleared after declarations. -/
theorem observe_eq {clean : Bool} (operations : List Operation) (twins : checker.Twins twin)
    (related : memosWhen clean checker twin) (disciplined : Disciplined clean operations checker)
    (completes : Completes operations checker) :
    observe operations twin = observe operations checker := by
  induction operations generalizing clean checker twin with
  | nil => rfl
  | cons operation rest ih =>
    obtain ⟨fits, held, disciplined⟩ := disciplined
    simp only [Completes] at completes
    rcases alternatives_operation operation twins related fits held with
      ⟨answer, checker', twin', run, run', twins', related'⟩ |
      ⟨failure, checker', twin', run, run'⟩ | ⟨checker', run⟩
    · simp only [run] at disciplined completes
      have reportedEq : decide (0 < twin'.reports.size) = decide (0 < checker'.reports.size) :=
        decide_eq_decide.mpr twins'.reported_iff
      simp only [observe, run, run', twins'.types_eq, reportedEq,
        ih twins' related' disciplined completes]
    · simp only [observe, run, run']
    · simp only [run] at completes
      exact absurd rfl completes

/-- Whether results of substitutions are remembered cannot be seen. -/
theorem memoize_transparent
    (start : Checker) (wellFormed : start.WellFormed) (options : Options)
    (operations : List Operation)
    (disciplined : Disciplined true operations
      (start.restarted { options with memoize := false }))
    (completes : Completes operations (start.restarted { options with memoize := false })) :
    observe operations (start.restarted { options with memoize := true }) =
      observe operations (start.restarted { options with memoize := false }) := by
  have twins : Twins (start.restarted { options with memoize := false })
      (start.restarted { options with memoize := true }) :=
    ⟨rfl, rfl, rfl, rfl, rfl, Iff.rfl, wellFormed.types_canonical,
      wellFormed.features_wellFormed⟩
  have simulated : memosWhen true (start.restarted { options with memoize := false })
      (start.restarted { options with memoize := true }) :=
    ⟨rfl, rfl, memosSound_of_empty rfl rfl⟩
  exact observe_eq operations twins simulated disciplined completes

/-- An heir is asked twice for a formal of its ancestor, before and after one more
declaration. -/
def heirOperations : List Operation :=
  [.declare (.feature "any" none true), .construct (.instantiate ⟨1⟩ []),
    .declare (.feature "list" none true), .declare (.formal ⟨2⟩ "T" ⟨3⟩ false {}),
    .declare (.feature "range" none true), .declare (.formal ⟨3⟩ "U" ⟨3⟩ false {}),
    .declare (.parent ⟨3⟩ ⟨2⟩ [⟨5⟩]), .clearMemos,
    .call (.substitute ⟨3⟩ [⟨3⟩] ⟨4⟩), .call (.substitute ⟨3⟩ [⟨3⟩] ⟨4⟩),
    .call (.isAssignable ⟨6⟩ ⟨3⟩), .call (.metatype ⟨6⟩),
    .declare (.parent ⟨2⟩ ⟨1⟩ []), .clearMemos,
    .call (.substitute ⟨3⟩ [⟨3⟩] ⟨4⟩), .call (.union ⟨3⟩ ⟨6⟩)]

theorem memoize_transparent_heir :
    let start : Checker := { options := { depthLimit := 30 } }
    Disciplined true heirOperations (start.restarted { start.options with memoize := false }) ∧
      Completes heirOperations (start.restarted { start.options with memoize := false }) ∧
        observe heirOperations (start.restarted { start.options with memoize := true }) =
          observe heirOperations (start.restarted { start.options with memoize := false }) := by
  refine ⟨by decide +kernel, by decide +kernel, ?_⟩
  exact memoize_transparent _ (initial_wellFormed _ _) _ heirOperations (by decide +kernel)
    (by decide +kernel)

end FeatureTypes.Lockstep

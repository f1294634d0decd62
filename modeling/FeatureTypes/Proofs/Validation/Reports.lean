import FeatureTypes.Proofs.Checker.Frame
import FeatureTypes.Proofs.Store.Whole
import FeatureTypes.Proofs.Validation.Soundness

/-!
# Failed checks have reports

The check of the actuals in a type gives the type back or the error type, and then it has
reported why.
-/

namespace FeatureTypes

/-- Whether the issue is that the actuals of a type do not fit its formals. -/
def Issue.faultsActuals : Issue → Bool
  | .wrongActualCount _ _ _ | .incompatibleActual _ _ _ => true
  | _ => false

namespace Checker

open Lockstep

variable {checker after : Checker} {ty actual : TypeId} {span : Span} {depth : Nat}

/-! ## Added reports -/

theorem run_report (issue : Issue) (checker : Checker) :
    ∃ after, (report issue span).run checker = .ok () after ∧
      after.reports.toList = checker.reports.toList ++ [⟨issue, span⟩] := by
  refine ⟨_, rfl, ?_⟩
  dsimp only
  split <;> simp

/-- Between the two checkers a report about actuals that do not fit was added, for the span. -/
def AddsFault (span : Span) (checker after : Checker) : Prop :=
  ∃ added, after.reports.toList = checker.reports.toList ++ added ∧
    ∃ report ∈ added, report.issue.faultsActuals = true ∧ report.span = span

theorem AddsFault.widen {first last : Checker} (adds : AddsFault span first last)
    (earlier : checker.reports.toList <+: first.reports.toList)
    (later : last.reports.toList <+: after.reports.toList) : AddsFault span checker after := by
  obtain ⟨added, addedEq, report, member, isFault⟩ := adds
  obtain ⟨front, frontEq⟩ := earlier
  obtain ⟨back, backEq⟩ := later
  refine ⟨front ++ added ++ back, ?_, report, by simp [member], isFault⟩
  rw [← backEq, addedEq, ← frontEq]
  simp only [List.append_assoc]

theorem addsFault_of_report {issue : Issue} (isFault : issue.faultsActuals = true)
    (run : (report issue span).run checker = .ok () after) : AddsFault span checker after := by
  obtain ⟨after', run', reportsEq⟩ := run_report issue checker
  obtain ⟨_, rfl⟩ := EStateM.Result.ok.inj (run.symm.trans run')
  exact ⟨_, reportsEq, _, List.mem_singleton_self _, isFault, rfl⟩

/-! ## Failed checks -/

section

variable {formal : Formal} (sound : checker.Sound)
  (constraintHeld : checker.types.Holds formal.constraint) (actualHeld : checker.types.Holds actual)

include sound constraintHeld actualHeld

theorem addsFault_of_checkMeets
    (run : (checkMeets depth span formal actual).run checker = .ok false after) :
    AddsFault span checker after := by
  obtain ⟨meets, stop, runMeets, run⟩ := exists_of_run_bind run
  cases meets with
  | true => cases run
  | false =>
    obtain ⟨_, _, runConstraint, run⟩ := exists_of_run_bind run
    obtain ⟨_, _, runActual, run⟩ := exists_of_run_bind run
    obtain ⟨_, _, runReport, run⟩ := exists_of_run_bind run
    obtain ⟨_, rfl⟩ := EStateM.Result.ok.inj run
    obtain ⟨rfl, _⟩ := Ensures.of_looks (.display _) _ _ runConstraint
    obtain ⟨rfl, _⟩ := Ensures.of_looks (.display _) _ _ runActual
    obtain ⟨_, sustains⟩ := Replay.sustains_of_run sound
      (Replay.engine.meetsConstraintWithin (Nat.le_refl depth) ⟨rfl, constraintHeld⟩
        ⟨rfl, actualHeld⟩) runMeets
    exact (addsFault_of_report rfl runReport).widen sustains.reports_kept List.prefix_rfl

/-- Where the check of a single actual finds fault with it, a fault was reported, if that is so
where the check of the actual in itself fails. -/
theorem addsFault_of_checkActual
    (fails : ∀ stop, (checkConstraintsWithin span depth actual).run checker = .ok .error stop →
      AddsFault span checker stop)
    (run : (checkActual (checkConstraintsWithin span depth) depth ty span formal actual).run
      checker = .ok false after) : AddsFault span checker after := by
  obtain ⟨checked, after₁, runActual, run⟩ := exists_of_run_bind run
  obtain ⟨sound₁, sustains₁⟩ := sustains_checkConstraintsWithin sound actualHeld runActual
  obtain ⟨_, after₂, runConstraint, run⟩ := exists_of_run_bind run
  obtain ⟨sound₂, sustains₂, _⟩ := sustains_checkConstraintType sound₁
    (sustains₁.types_extend.holds constraintHeld) runConstraint
  obtain ⟨meets, after₃, runMeets, run⟩ := exists_of_run_bind run
  obtain ⟨failed, rfl⟩ := EStateM.Result.ok.inj run
  have sustains := sustains₁.trans sustains₂
  have constraintHeld₂ := sustains.types_extend.holds constraintHeld
  have actualHeld₂ := sustains.types_extend.holds actualHeld
  cases meets with
  | false =>
    exact (addsFault_of_checkMeets sound₂ constraintHeld₂ actualHeld₂ runMeets).widen
      sustains.reports_kept List.prefix_rfl
  | true =>
    obtain rfl : checked = .error := by simpa using failed
    obtain ⟨_, sustains₃⟩ := sustains_checkMeets sound₂ constraintHeld₂ actualHeld₂ runMeets
    exact (fails after₁ runActual).widen List.prefix_rfl (sustains₂.trans sustains₃).reports_kept

end

theorem addsFault_of_checkActuals (sound : checker.Sound) {pairs : List (Formal × TypeId)}
    (constraintsHeld : ∀ pair ∈ pairs, checker.types.Holds pair.1.constraint)
    (actualsWhole : ∀ pair ∈ pairs, checker.types.Whole pair.2)
    (fails : ∀ pair ∈ pairs, ∀ first stop, first.Sound → first.types.Whole pair.2 →
      (checkConstraintsWithin span depth pair.2).run first = .ok .error stop →
        AddsFault span first stop)
    (run : (checkActuals (checkConstraintsWithin span depth) depth ty span pairs).run checker =
      .ok false after) : AddsFault span checker after := by
  induction pairs generalizing checker with
  | nil => cases run
  | cons pair rest ih =>
    rw [List.forall_mem_cons] at constraintsHeld actualsWhole fails
    obtain ⟨first, stop, runFirst, run⟩ := exists_of_run_bind run
    obtain ⟨others, last, runOthers, run⟩ := exists_of_run_bind run
    obtain ⟨failed, rfl⟩ := EStateM.Result.ok.inj run
    obtain ⟨stopSound, sustains, _⟩ :=
      examined_of_checkActual sound constraintsHeld.1 actualsWhole.1.1 runFirst
    have restHeld := fun other member =>
      sustains.types_extend.holds (constraintsHeld.2 other member)
    have restWhole := fun other member =>
      (actualsWhole.2 other member).of_extends sustains.types_extend
    cases first with
    | false =>
      obtain ⟨_, othersSustain, _⟩ := examined_of_checkActuals stopSound restHeld
        (fun other member => (restWhole other member).1) runOthers
      exact (addsFault_of_checkActual sound constraintsHeld.1 actualsWhole.1.1
        (fun stop => fails.1 checker stop sound actualsWhole.1) runFirst).widen List.prefix_rfl
          othersSustain.reports_kept
    | true =>
      obtain rfl : others = false := failed
      exact (ih stopSound restHeld restWhole fails.2 runOthers).widen sustains.reports_kept
        List.prefix_rfl

theorem addsFault_of_checkConstraintsWithin (sound : checker.Sound)
    (whole : checker.types.Whole ty)
    (run : (checkConstraintsWithin span depth ty).run checker = .ok .error after) :
    AddsFault span checker after := by
  induction depth generalizing checker after ty with
  | zero => cases run
  | succ depth ih =>
    have coherent := sound.types_canonical.toCoherent
    have typed : ty ≠ .error := by
      rintro rfl
      have mentions := whole.2
      rw [TypeStore.mentionsError, coherent.flags_exact _ whole.1,
        sound.types_canonical.error_exact.2] at mentions
      cases mentions
    obtain ⟨_, entered, runEntry, run⟩ := exists_of_run_bind run
    obtain ⟨enteredSound, sustains⟩ := Replay.sustains_of_run sound
      (Replay.engine.recordEntry .constraints ⟨rfl, whole.1⟩) runEntry
    have enteredKept := sustains.reports_kept
    have enteredWhole := whole.of_extends sustains.types_extend
    obtain ⟨layer, _, runNode, run⟩ := exists_of_run_bind run
    rw [run_node] at runNode
    obtain ⟨rfl, rfl⟩ := EStateM.Result.ok.inj runNode
    cases node : entered.types.node ty with
    | applied id args outer isRef isThis =>
      rw [node] at run
      obtain ⟨declared, _, runFeature, run⟩ := exists_of_run_bind run
      obtain ⟨rfl, found⟩ := Ensures.feature id declared _ runFeature
      dsimp only at run
      split at run
      · obtain ⟨_, _, runReport, run⟩ := exists_of_run_bind run
        obtain ⟨_, rfl⟩ := EStateM.Result.ok.inj run
        exact (addsFault_of_report rfl runReport).widen enteredKept List.prefix_rfl
      · obtain ⟨inOrder, _, runActuals, run⟩ := exists_of_run_bind run
        cases inOrder with
        | true => exact absurd (EStateM.Result.ok.inj run).1 typed
        | false =>
          obtain ⟨_, rfl⟩ := EStateM.Result.ok.inj run
          refine (addsFault_of_checkActuals enteredSound (fun pair member => ?_)
            (fun pair member => ?_) (fun pair _ first stop firstSound actualWhole run =>
              ih firstSound actualWhole run) runActuals).widen enteredKept List.prefix_rfl
          · exact (held_of_mem_zip enteredSound.toWellFormed enteredWhole.1 node found member).1
          · refine enteredWhole.child enteredSound.types_canonical.toCoherent ?_
            rw [node]
            exact List.mem_append_left _ (List.of_mem_zip member).2
    | _ =>
      rw [node] at run
      exact absurd (EStateM.Result.ok.inj run).1 typed

/-- The check gives the type back or the error type and keeps the reports so far in place.  If
the error type did not occur in the type but is the result, the check has reported actuals that
do not fit, at the given span. -/
theorem checkConstraints_error_reported (checker : Checker) (sound : checker.Sound) (ty : TypeId)
    (held : checker.types.Holds ty) (whole : checker.types.mentionsError ty = false) (span : Span)
    (result : TypeId) (after : Checker)
    (run : (checkConstraints ty span).run checker = .ok result after) :
    (result = ty ∨ result = .error) ∧
      ∃ added, after.reports.toList = checker.reports.toList ++ added ∧
        (result = .error → ∃ report ∈ added,
          report.issue.faultsActuals = true ∧ report.span = span) := by
  rw [checkConstraints, run_withinLimit] at run
  refine ⟨eq_or_error_of_checkConstraintsWithin run, ?_⟩
  by_cases failed : result = .error
  · obtain ⟨added, addedEq, isFault⟩ :=
      addsFault_of_checkConstraintsWithin sound ⟨held, whole⟩ (failed ▸ run)
    exact ⟨added, addedEq, fun _ => isFault⟩
  · obtain ⟨added, addedEq⟩ := (sustains_checkConstraintsWithin sound held run).2.reports_kept
    exact ⟨added, addedEq.symm, fun isError => absurd isError failed⟩

/-- A list of vectors of texts.  The formal of the vector is for numbers, and that of the list for
what inherits from `any`, which vectors do not: both have an actual at fault. -/
theorem checkConstraints_error_reported_vector :
    let start := afterAll
      [.declare (.feature "any" none true), .construct (.instantiate ⟨1⟩ []),
        .declare (.feature "numeric" none true), .construct (.instantiate ⟨2⟩ []),
        .declare (.feature "text" none false), .construct (.instantiate ⟨3⟩ []),
        .declare (.feature "vector" none false), .declare (.formal ⟨4⟩ "N" ⟨4⟩ false {}),
        .declare (.feature "list" none false), .declare (.formal ⟨5⟩ "T" ⟨3⟩ true {}),
        .construct (.instantiate ⟨4⟩ [⟨5⟩]), .construct (.instantiate ⟨5⟩ [⟨8⟩])] {}
    let span : Span := { start := 7, stop := 9, line := 1, column := 8 }
    start.Reachable ∧ start.types.node ⟨9⟩ = .applied ⟨5⟩ [⟨8⟩] none false false ∧
      start.types.mentionsError ⟨9⟩ = false ∧
      ∃ after, (checkConstraints ⟨9⟩ span).run start = .ok .error after ∧
        ∃ added, after.reports.toList = start.reports.toList ++ added ∧
          ∃ report ∈ added, report.issue.faultsActuals = true ∧ report.span = span := by
  intro start span
  have reachable : start.Reachable := (Reachable.initial {} {}).steps (by decide +kernel)
  have whole : start.types.mentionsError ⟨9⟩ = false := by decide +kernel
  have failed : (checkConstraints ⟨9⟩ span).run' start = some .error := by decide +kernel
  obtain ⟨after, run⟩ := run'_eq_some_iff.mp failed
  obtain ⟨_, added, addedEq, isFault⟩ := checkConstraints_error_reported start reachable.sound ⟨9⟩
    (by decide +kernel) whole span .error after run
  exact ⟨reachable, by decide +kernel, whole, after, run, added, addedEq, isFault rfl⟩

end Checker

end FeatureTypes

import FeatureTypes.Checker.Substitution

/-!
# Runs of the primitive operations
-/

namespace FeatureTypes.Checker

variable {α β : Type} (checker : Checker)

@[simp]
theorem run_readTypes (query : TypeStore → α) :
    (readTypes query).run checker = .ok (query checker.types) checker :=
  rfl

@[simp]
theorem run_onTypes (operation : TypeStore → α × TypeStore) :
    (onTypes operation).run checker =
      .ok (operation checker.types).1 { checker with types := (operation checker.types).2 } :=
  rfl

@[simp]
theorem run_node (ty : TypeId) : (node ty).run checker = .ok (checker.types.node ty) checker :=
  rfl

/-- The outcome of an operation that only looks something up. -/
def answer : (found : Except Failure α) → EStateM.Result Failure Checker α
  | .ok result => .ok result checker
  | .error failure => .error failure checker

theorem run_readFeatures (query : FeatureTable → Except Failure α) :
    (readFeatures query).run checker = checker.answer (query checker.features) := by
  simp only [readFeatures, EStateM.run_bind, EStateM.run_get]
  cases query checker.features <;> rfl

theorem run_feature {id : FeatureId} {declared : Feature}
    (found : checker.features.get id = .ok declared) :
    (feature id).run checker = .ok declared checker := by
  rw [feature, run_readFeatures, found, answer]

theorem run_actualsMatch {owner : FeatureId} {declared : Feature}
    (found : checker.features.get owner = .ok declared) (actuals : List TypeId) :
    (actualsMatch owner actuals).run checker = .ok (declared.accepts actuals.length) checker := by
  rw [actualsMatch, EStateM.run_bind, run_feature checker found]
  rfl

theorem run_onFeatures (operation : FeatureTable → Except Failure (α × FeatureTable)) :
    (onFeatures operation).run checker =
      match operation checker.features with
      | .ok result => .ok result.1 { checker with features := result.2 }
      | .error failure => .error failure checker := by
  simp only [onFeatures, EStateM.run_bind, run_readFeatures]
  cases operation checker.features <;> rfl

theorem run_record (event : Event) :
    (record event).run checker =
      .ok () (if checker.journal.recording then
          { checker with journal := { checker.journal with
              events := event :: checker.journal.events } }
        else checker) :=
  rfl

/-- A broken assumption is waived after a report, and else fails just in strict mode. -/
theorem run_expect (what : Invariant) (holds : Bool) :
    (expect what holds).run checker =
      if holds then .ok () checker
      else if 0 < checker.reports.size then
        (record (.invariantWaived what checker.reports.size)).run checker
      else if checker.options.strict then .error (.broken what) checker
      else (record (.invariantBroken what)).run checker := by
  simp only [expect]
  split
  · rfl
  · simp only [EStateM.run_bind, EStateM.run_get]
    split
    · rfl
    · split <;> rfl

theorem run_withinLimit (operation : Nat → CheckM α) :
    (withinLimit operation).run checker = (operation checker.options.depthLimit).run checker :=
  rfl

theorem run_display (ty : TypeId) :
    (display ty).run checker = checker.answer (checker.types.display checker.features ty) := by
  simp only [display, EStateM.run_bind, EStateM.run_get, run_readFeatures]

theorem onTypes_change (id : TypeId) (edit : Node → Node) :
    onTypes (·.change id edit) = (do
      let layer ← node id
      if edit layer = layer then pure id else onTypes (·.intern (edit layer))) := by
  funext checker
  change (onTypes _).run checker = EStateM.run _ checker
  simp only [run_onTypes, EStateM.run_bind, run_node, TypeStore.change]
  split <;> rfl

theorem formal?_eq (id : FormalId) :
    formal? id = (do return (← feature id.feature).formals[id.index]?) := by
  funext checker
  change (formal? id).run checker = EStateM.run _ checker
  simp only [formal?, feature, EStateM.run_bind, run_readFeatures, FeatureTable.formal?]
  cases checker.features.get id.feature <;> rfl

variable {checker}

/-- A run of two operations in a row falls apart into a run of each. -/
theorem exists_of_run_bind {operation : CheckM α} {next : α → CheckM β} {final : β}
    {after : Checker} (run : (operation >>= next).run checker = .ok final after) :
    ∃ result stop, operation.run checker = .ok result stop ∧
      (next result).run stop = .ok final after := by
  rw [EStateM.run_bind] at run
  cases first : operation.run checker with
  | error failure stop => simp [first] at run
  | ok result stop => exact ⟨result, stop, rfl, by simpa [first] using run⟩

theorem cases_of_run_bind_error {operation : CheckM α} {next : α → CheckM β} {failure : Failure}
    {after : Checker} (run : (operation >>= next).run checker = .error failure after) :
    operation.run checker = .error failure after ∨ ∃ result stop,
      operation.run checker = .ok result stop ∧ (next result).run stop = .error failure after := by
  rw [EStateM.run_bind] at run
  cases first : operation.run checker with
  | error failure' stop => exact .inl (by simpa [first] using run)
  | ok result stop => exact .inr ⟨result, stop, rfl, by simpa [first] using run⟩

theorem run'_eq_some_iff {operation : CheckM α} {result : α} :
    operation.run' checker = some result ↔ ∃ after, operation.run checker = .ok result after := by
  unfold EStateM.run'
  cases operation.run checker <;> simp

end FeatureTypes.Checker

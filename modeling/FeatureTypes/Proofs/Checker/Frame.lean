import FeatureTypes.Checker.Companion
import FeatureTypes.Proofs.Checker.Run
import FeatureTypes.Proofs.Feature.Growth

/-!
# What runs leave alone and what they achieve
-/

namespace FeatureTypes.Checker

variable {α β : Type}

/-! ## Operations that make types -/

/-- The checkers before and after the operation are related, whatever comes of it. -/
def Evolves (relation : Checker → Checker → Prop) (operation : CheckM α) : Prop :=
  ∀ checker, match operation.run checker with
    | .ok _ after | .error _ after => relation checker after

theorem Evolves.bind (relation : Checker → Checker → Prop)
    (trans : ∀ {first second third}, relation first second → relation second third →
      relation first third) {operation : CheckM α} {next : α → CheckM β}
    (first : Evolves relation operation) (rest : ∀ result, Evolves relation (next result)) :
    Evolves relation (operation >>= next) := by
  intro checker
  have evolved := first checker
  rw [EStateM.run_bind]
  cases run : operation.run checker with
  | error failure after =>
    rw [run] at evolved
    exact evolved
  | ok result after =>
    rw [run] at evolved
    have evolvedNext := rest result after
    dsimp only
    cases runNext : (next result).run after with
    | ok _ final | error _ final =>
      rw [runNext] at evolvedNext
      exact trans evolved evolvedNext

/-- The operation changes nothing but the types and the events, whatever comes of it. -/
def Spares (operation : CheckM α) : Prop :=
  Evolves (fun checker after => after = { checker with
    types := after.types
    journal := { checker.journal with events := after.journal.events } }) operation

namespace Spares

theorem pure (result : α) : Spares (Pure.pure result) :=
  fun _ => rfl

theorem fail (failure : Failure) : Spares (throw failure : CheckM α) :=
  fun _ => rfl

theorem bind {operation : CheckM α} {next : α → CheckM β} (first : Spares operation)
    (rest : ∀ result, Spares (next result)) : Spares (operation >>= next) :=
  Evolves.bind _ (fun lower upper => upper.trans (by rw [lower])) first rest

theorem readTypes (query : TypeStore → α) : Spares (readTypes query) :=
  fun _ => rfl

theorem onTypes (operation : TypeStore → α × TypeStore) : Spares (onTypes operation) :=
  fun _ => rfl

theorem feature (id : FeatureId) : Spares (feature id) := by
  intro checker
  rw [Checker.feature, run_readFeatures]
  cases checker.features.get id <;> rfl

theorem mapM {operation : α → CheckM β} (each : ∀ item, Spares (operation item)) (list : List α) :
    Spares (list.mapM operation) := by
  induction list with
  | nil => exact .pure []
  | cons head tail ih =>
    rw [List.mapM_cons]
    exact .bind (each head) fun _ => .bind ih fun _ => .pure _

theorem optionMapM {operation : α → CheckM β} (each : ∀ item, Spares (operation item))
    (item : Option α) : Spares (item.mapM operation) := by
  cases item with
  | none => exact .pure none
  | some item =>
    rw [Option.mapM_some, map_eq_pure_bind]
    exact .bind (each item) fun _ => .pure _

theorem outerTypeBy {typeOf : FeatureId → CheckM TypeId} (each : ∀ id, Spares (typeOf id))
    (id : FeatureId) : Spares (outerTypeBy typeOf id) := by
  refine .bind (.feature id) fun declared => ?_
  cases declared.outer with
  | none => exact .pure none
  | some outer =>
    refine .bind (.feature outer) fun around => ?_
    split
    · exact .pure none
    · exact .bind (each outer) fun _ => .pure _

theorem selfTypeWithin (depth : Nat) (id : FeatureId) : Spares (selfTypeWithin depth id) := by
  induction depth generalizing id with
  | zero => exact .fail .depthExceeded
  | succ depth ih =>
    refine .bind (.feature id) fun declared => ?_
    refine .bind (.mapM (fun formal => .onTypes _) declared.formals) fun args => ?_
    exact .bind (.outerTypeBy ih id) fun outer => .onTypes _

theorem instantiate (id : FeatureId) (args : List TypeId) : Spares (instantiate id args) := by
  refine .bind (.feature id) fun declared => ?_
  exact .bind (.outerTypeBy (fun outer => .selfTypeWithin _ outer) id) fun outer => .onTypes _

theorem mapParts {transform : TypeId → CheckM TypeId} (each : ∀ ty, Spares (transform ty))
    (ty : TypeId) : Spares (mapParts transform ty) := by
  refine .bind (.readTypes _) fun layer => ?_
  cases layer with
  | applied feature args outer isRef isThis =>
    exact .bind (.mapM each args) fun _ => .bind (.optionMapM each outer) fun _ => .onTypes _
  | _ => exact .pure ty

/-- Transformations touch no features if their visitors touch none. -/
theorem transformWithin {visit : TypeId → CheckM (Option TypeId)} (each : ∀ ty, Spares (visit ty))
    (depth : Nat) (ty : TypeId) : Spares (transformWithin visit depth ty) := by
  induction depth generalizing ty with
  | zero => exact .fail .depthExceeded
  | succ depth ih =>
    refine .bind (each ty) fun settled => ?_
    cases settled with
    | some result => exact .pure result
    | none => exact .mapParts ih ty

theorem shiftFormals (source target : FeatureId) (offset : Nat) (ty : TypeId) :
    Spares (shiftFormals source target offset ty) := by
  refine .transformWithin (fun part => ?_) _ ty
  refine .bind (.readTypes _) fun mentions => ?_
  split
  · exact .pure _
  · refine .bind (.readTypes _) fun layer => ?_
    cases layer with
    | formal id boxed =>
      dsimp only
      split
      · exact .pure _
      · refine .bind ?_ fun shifted => .bind (.onTypes _) fun result => .pure _
        unfold shiftFormal
        split
        · exact .pure _
        · exact .fail .formalIndexOverflow
    | _ => exact .pure none

end Spares

/-! ## Operations that only look something up -/

/-- The operation leaves the checker as it is, whatever comes of it. -/
def Looks (operation : CheckM α) : Prop :=
  ∀ checker, ∃ found, operation.run checker = checker.answer found

namespace Looks

theorem pure (result : α) : Looks (Pure.pure result) :=
  fun _ => ⟨.ok result, rfl⟩

theorem bind {operation : CheckM α} {next : α → CheckM β} (first : Looks operation)
    (rest : ∀ result, Looks (next result)) : Looks (operation >>= next) := by
  intro checker
  obtain ⟨found, run⟩ := first checker
  rw [EStateM.run_bind, run]
  cases found with
  | error failure => exact ⟨.error failure, rfl⟩
  | ok result => exact rest result checker

theorem readTypes (query : TypeStore → α) : Looks (readTypes query) :=
  fun checker => ⟨.ok (query checker.types), rfl⟩

theorem readFeatures (query : FeatureTable → Except Failure α) : Looks (readFeatures query) :=
  fun checker => ⟨query checker.features, run_readFeatures checker query⟩

theorem display (ty : TypeId) : Looks (display ty) :=
  fun checker => ⟨checker.types.display checker.features ty, run_display checker ty⟩

theorem formal? (id : FormalId) : Looks (formal? id) :=
  .readFeatures _

theorem constraint? (id : FormalId) : Looks (constraint? id) :=
  .bind (.formal? id) fun _ => .pure _

theorem formalOf? (ty : TypeId) : Looks (formalOf? ty) := by
  refine .bind (.readTypes _) fun id => ?_
  cases id with
  | none => exact .pure none
  | some id => exact .formal? id

theorem isMetatype (ty : TypeId) : Looks (isMetatype ty) := by
  refine .bind (.readTypes _) fun id => ?_
  cases id with
  | none => exact .pure false
  | some id => exact .bind (.readFeatures _) fun declared => .pure _

theorem actualsMatch (owner : FeatureId) (actuals : List TypeId) :
    Looks (actualsMatch owner actuals) :=
  .bind (.readFeatures _) fun _ => .pure _

theorem trailingOpen? (owner : FeatureId) (ty : TypeId) (rest : List TypeId) :
    Looks (trailingOpen? owner ty rest) := by
  unfold Checker.trailingOpen?
  split
  · refine .bind (.readTypes _) fun id => ?_
    cases id with
    | none => exact .pure none
    | some id =>
      dsimp only
      split
      · exact .pure none
      · refine .bind (.bind (.formalOf? ty) fun formal => .pure _) fun isOpen => ?_
        cases isOpen <;> exact .pure _
  · exact .pure none

theorem levelInherits (level : TypeId) (id : FeatureId) : Looks (levelInherits level id) := by
  refine .bind (.bind (.readTypes _) fun layer => ?_) fun feature => ?_
  · cases layer with
    | formal formal boxed =>
      exact .bind (.constraint? formal) fun _ => .readTypes _
    | _ => exact .pure _
  · cases feature with
    | none => exact .pure false
    | some heir => exact .readFeatures _

end Looks

/-! ## Operations that come to a result -/

/-- Where the operation comes to a result, `post` holds of the result and of the checker
that is left behind. -/
def Ensures (checker : Checker) (operation : CheckM α) (post : Checker → α → Prop) : Prop :=
  ∀ result after, operation.run checker = .ok result after → post after result

variable {checker : Checker}

namespace Ensures

theorem pure {result : α} {post : Checker → α → Prop} (holds : post checker result) :
    Ensures checker (Pure.pure result) post := by
  intro result' after run
  obtain ⟨rfl, rfl⟩ : result = result' ∧ checker = after := by
    simpa using run
  exact holds

theorem fail (failure : Failure) (post : Checker → α → Prop) :
    Ensures checker (throw failure) post := by
  intro result after run
  cases run

theorem bind {operation : CheckM α} {next : α → CheckM β} {middle : Checker → α → Prop}
    {post : Checker → β → Prop} (first : Ensures checker operation middle)
    (rest : ∀ after result, middle after result → Ensures after (next result) post) :
    Ensures checker (operation >>= next) post := by
  intro result after run
  rw [EStateM.run_bind] at run
  cases outcome : operation.run checker with
  | error failure after => simp [outcome] at run
  | ok result₁ after₁ =>
    rw [outcome] at run
    exact rest after₁ result₁ (first result₁ after₁ outcome) result after run

/-- Less may be said of the result. -/
theorem weaken {operation : CheckM α} {post post' : Checker → α → Prop}
    (ensures : Ensures checker operation post)
    (weaker : ∀ after result, post after result → post' after result) :
    Ensures checker operation post' :=
  fun result after run => weaker after result (ensures result after run)

theorem look {operation : CheckM α} {next : α → CheckM β} {post : Checker → β → Prop} {result : α}
    (run : operation.run checker = .ok result checker) (rest : Ensures checker (next result) post) :
    Ensures checker (operation >>= next) post := by
  intro result' after run'
  rw [EStateM.run_bind, run] at run'
  exact rest result' after run'

theorem feature (id : FeatureId) :
    Ensures checker (feature id) fun after declared =>
      checker = after ∧ checker.features.get id = .ok declared := by
  intro declared after run
  rw [Checker.feature, run_readFeatures] at run
  cases found : checker.features.get id with
  | error failure => simp [found, answer] at run
  | ok declared' =>
    rw [found] at run
    obtain ⟨rfl, rfl⟩ := EStateM.Result.ok.inj run
    exact ⟨rfl, rfl⟩

theorem onFeatures (operation : FeatureTable → Except Failure (α × FeatureTable)) :
    Ensures checker (onFeatures operation) fun after result =>
      operation checker.features = .ok (result, after.features) := by
  intro result after run
  rw [run_onFeatures] at run
  cases outcome : operation checker.features with
  | error failure => simp [outcome] at run
  | ok changed =>
    rw [outcome] at run
    obtain ⟨rfl, rfl⟩ := EStateM.Result.ok.inj run
    rfl

/-- Operations that make types leave the features alone. -/
theorem of_spares {operation : CheckM α} (spares : Spares operation) :
    Ensures checker operation fun after _ => after.features = checker.features := by
  intro result after run
  have spared := spares checker
  rw [run] at spared
  dsimp only at spared
  rw [spared]

/-- A look-up leaves the whole checker as it is. -/
theorem of_looks {operation : CheckM α} (looks : Looks operation) :
    Ensures checker operation fun after result =>
      checker = after ∧ operation.run checker = .ok result checker := by
  intro result after run
  obtain ⟨found, answered⟩ := looks checker
  rw [answered] at run ⊢
  cases found with
  | error failure => cases run
  | ok result' =>
    obtain ⟨rfl, rfl⟩ := EStateM.Result.ok.inj run
    exact ⟨rfl, rfl⟩

theorem modifyFeature (id : FeatureId) (edit : Feature → Feature) :
    Ensures checker (modifyFeature id edit) fun after _ =>
      checker.features.modify id edit = .ok after.features := by
  refine .weaken (.onFeatures _) ?_
  intro after _ changed
  obtain ⟨table, modified, result⟩ := except_bind_eq_ok changed
  rw [modified, (Prod.mk.inj (Except.ok.inj result)).2]

theorem addFormal (id : FeatureId) (name : String) (constraint : TypeId) (isOpen : Bool)
    (span : Span) :
    Ensures checker (addFormal id name constraint isOpen span) fun after formal =>
      checker.features.addFormal id name constraint isOpen span = .ok (formal, after.features) :=
  .onFeatures _

end Ensures

end FeatureTypes.Checker

import FeatureTypes.Proofs.Lockstep.Marked
import FeatureTypes.Proofs.Feature.Grounded

/-!
# Types that pass the check of their actuals

If the check of the actuals in a type finds nothing wrong, then throughout the type every
actual meets the constraint of the formal at its position.  Actuals behind the last formal
are not looked at.
-/

namespace FeatureTypes.Checker

variable {after checker : Checker} {ty actual : TypeId} {formal : Formal} {depth : Nat}

open Lockstep

/-! ## Actuals and the formals they are passed for -/

/-- The type applies a feature, and passes `actual` for the formal. -/
def Passes (checker : Checker) (ty : TypeId) (formal : Formal) (actual : TypeId) : Prop :=
  ∃ id args outer isRef isThis, checker.types.node ty = .applied id args outer isRef isThis ∧
    ∃ declared, checker.features.get id = .ok declared ∧
      ∃ position : Nat, declared.formals[position]? = some formal ∧ args[position]? = some actual

/-- From argument to argument one comes from `ty` to `inner`. -/
def ReachesThrough (checker : Checker) : (ty inner : TypeId) → Prop :=
  Relation.ReflTransGen fun outer inner => ∃ formal, checker.Passes outer formal inner

section

variable {checker : Checker} {ty : TypeId} {id : FeatureId} {args : List TypeId}
  {outer : Option TypeId} {isRef isThis : Bool}

theorem passes_iff (node : checker.types.node ty = .applied id args outer isRef isThis)
    {declared : Feature} (found : checker.features.get id = .ok declared) :
    checker.Passes ty formal actual ↔ (formal, actual) ∈ declared.formals.zip args := by
  rw [List.mem_iff_getElem?]
  simp only [List.getElem?_zip_eq_some]
  constructor
  · rintro ⟨id', args', _, _, _, node', declared', found', position, formalAt, actualAt⟩
    obtain ⟨rfl, rfl, _⟩ := Node.applied.inj (node.symm.trans node')
    obtain rfl := Except.ok.inj (found.symm.trans found')
    exact ⟨position, formalAt, actualAt⟩
  · rintro ⟨position, formalAt, actualAt⟩
    exact ⟨id, args, outer, isRef, isThis, node, declared, found, position, formalAt, actualAt⟩

theorem exists_passes (node : checker.types.node ty = .applied id args outer isRef isThis)
    (position : Nat) (actualAt : args[position]? = some actual) (constraint : TypeId)
    (constraintAt : (checker.features.formal? ⟨id, position⟩).toOption.join.map Formal.constraint =
      some constraint) :
    ∃ formal, checker.Passes ty formal actual ∧ formal.constraint = constraint := by
  obtain ⟨formal, formalAt, rfl⟩ := Option.map_eq_some_iff.mp constraintAt
  cases found : checker.features.get id with
  | error failure => simp [FeatureTable.formal?, found, Except.toOption] at formalAt
  | ok declared =>
    refine ⟨formal, ⟨id, args, outer, isRef, isThis, node, declared, found, position, ?_,
      actualAt⟩, rfl⟩
    simpa [FeatureTable.formal?, found, Except.toOption] using formalAt

theorem Passes.of_persists {later : Checker} (persists : checker.Persists later)
    (held : checker.types.Holds ty) (passes : checker.Passes ty formal actual) :
    later.Passes ty formal actual := by
  obtain ⟨id, args, outer, isRef, isThis, node, declared, found, position, formalAt, actualAt⟩ :=
    passes
  obtain ⟨companion, found'⟩ := persists.features_grow.get_eq id declared found
  exact ⟨id, args, outer, isRef, isThis, (persists.types_extend.node_eq held).trans node, _,
    found', position, formalAt, actualAt⟩

theorem Passes.held (coherent : checker.types.Coherent) (held : checker.types.Holds ty)
    (passes : checker.Passes ty formal actual) : checker.types.Holds actual := by
  obtain ⟨id, args, outer, isRef, isThis, node, _, _, position, _, actualAt⟩ := passes
  refine coherent.child_holds held ?_
  rw [node]
  exact List.mem_append_left _ (List.mem_of_getElem? actualAt)

theorem ReachesThrough.of_persists {later : Checker} {inner : TypeId}
    (persists : checker.Persists later) (coherent : checker.types.Coherent)
    (held : checker.types.Holds ty) (reaches : checker.ReachesThrough ty inner) :
    checker.types.Holds inner ∧ later.ReachesThrough ty inner := by
  induction reaches with
  | refl => exact ⟨held, .refl⟩
  | tail _ step ih =>
    obtain ⟨middleHeld, path⟩ := ih
    obtain ⟨formal, passes⟩ := step
    exact ⟨passes.held coherent middleHeld,
      path.tail ⟨formal, passes.of_persists persists middleHeld⟩⟩

end

/-! ## Runs in the course of a check -/

def Gave {α : Type} (checker after : Checker) (operation : CheckM α) (result : α) : Prop :=
  ∃ start stop, start.Sound ∧ checker.Persists start ∧ operation.run start = .ok result stop ∧
    stop.Persists after

theorem Gave.widen {α : Type} {first last : Checker} {operation : CheckM α} {result : α}
    (gave : Gave first last operation result) (earlier : checker.Persists first)
    (later : last.Persists after) : Gave checker after operation result := by
  obtain ⟨start, stop, sound, before, run, behind⟩ := gave
  exact ⟨start, stop, sound, earlier.trans before, run, behind.trans later⟩

theorem Gave.meets {constraint : TypeId} {limit : Nat} {meets : Bool}
    (gave : Gave checker after (meetsConstraintWithin depth constraint actual) meets)
    (constraintHeld : checker.types.Holds constraint) (actualHeld : checker.types.Holds actual)
    (sound : after.Sound) (enough : depth ≤ limit) :
    ∃ idle, (meetsConstraintWithin limit constraint actual).run after = .ok meets idle := by
  obtain ⟨start, stop, startSound, before, run, behind⟩ := gave
  have replays : Replay.Replays False ⟨start, startSound⟩ _ _ (replay False).Agrees :=
    Replay.engine.meetsConstraintWithin enough
      ⟨rfl, before.types_extend.holds constraintHeld⟩
      ⟨rfl, before.types_extend.holds actualHeld⟩
  obtain ⟨_, _, _, again⟩ := replays False.elim meets stop run
  obtain ⟨_, idle, run', _, rfl⟩ := again ⟨after, sound⟩ behind
  exact ⟨idle, run'⟩

/-- In the course of a run, an actual of `ty` and the constraint of its formal were checked, and
if the actual is in order, then it was found to meet the constraint. -/
structure Examined (span : Span) (depth : Nat) (ty : TypeId) (checker after : Checker)
    (formal : Formal) (actual : TypeId) (inOrder : Bool) : Prop where
  actual_checked : ∃ checked,
    Gave checker after (checkConstraintsWithin span depth actual) checked ∧
      (inOrder = true → checked ≠ .error)
  constraint_checked : formal.constraint ≠ ty →
    ∃ checked, Gave checker after (checkConstraintsWithin span depth formal.constraint) checked
  meets : inOrder = true →
    Gave checker after (meetsConstraintWithin depth formal.constraint actual) true

theorem Examined.widen {span : Span} {first last : Checker} {inOrder inOrder' : Bool}
    (examined : Examined span depth ty first last formal actual inOrder)
    (earlier : checker.Persists first) (later : last.Persists after)
    (weaker : inOrder' = true → inOrder = true) :
    Examined span depth ty checker after formal actual inOrder' where
  actual_checked := by
    obtain ⟨checked, gave, typed⟩ := examined.actual_checked
    exact ⟨checked, gave.widen earlier later, fun all => typed (weaker all)⟩
  constraint_checked other := by
    obtain ⟨checked, gave⟩ := examined.constraint_checked other
    exact ⟨checked, gave.widen earlier later⟩
  meets all := (examined.meets (weaker all)).widen earlier later

section

variable {checker after : Checker} (sound : checker.Sound) {ty : TypeId} {span : Span}
  {depth : Nat} {formal : Formal} {actual : TypeId}

theorem run_of_checkMeets
    (run : (checkMeets depth span formal actual).run checker = .ok true after) :
    (meetsConstraintWithin depth formal.constraint actual).run checker = .ok true after := by
  obtain ⟨meets, stop, run', rest⟩ := exists_of_run_bind run
  cases meets with
  | true =>
    obtain ⟨_, rfl⟩ := EStateM.Result.ok.inj rest
    exact run'
  | false =>
    obtain ⟨_, _, _, rest⟩ := exists_of_run_bind rest
    obtain ⟨_, _, _, rest⟩ := exists_of_run_bind rest
    obtain ⟨_, _, _, rest⟩ := exists_of_run_bind rest
    cases rest

include sound

theorem sustains_checkConstraintsWithin (held : checker.types.Holds ty) {result : TypeId}
    (run : (checkConstraintsWithin span depth ty).run checker = .ok result after) :
    after.Sound ∧ checker.Sustains False after :=
  Replay.sustains_of_run sound
    (Replay.reporting.checkConstraintsWithin span (Nat.le_refl depth) ⟨rfl, held⟩) run

section

variable (constraintHeld : checker.types.Holds formal.constraint)

include constraintHeld

theorem sustains_checkConstraintType
    (run : (checkConstraintType (checkConstraintsWithin span depth) ty formal.constraint).run
      checker = .ok () after) :
    after.Sound ∧ checker.Sustains False after ∧ (formal.constraint ≠ ty →
      ∃ checked, Gave checker after (checkConstraintsWithin span depth formal.constraint)
        checked) := by
  unfold checkConstraintType at run
  split at run
  · obtain ⟨checked, stop, run', rest⟩ := exists_of_run_bind run
    obtain ⟨_, rfl⟩ := EStateM.Result.ok.inj rest
    obtain ⟨stopSound, sustains⟩ := sustains_checkConstraintsWithin sound constraintHeld run'
    exact ⟨stopSound, sustains, fun _ => ⟨checked, checker, stop, sound, .refl _, run', .refl _⟩⟩
  next same =>
    obtain ⟨_, rfl⟩ := EStateM.Result.ok.inj run
    exact ⟨sound, .refl _, fun other => absurd other same⟩

theorem sustains_checkMeets (actualHeld : checker.types.Holds actual) {meets : Bool}
    (run : (checkMeets depth span formal actual).run checker = .ok meets after) :
    after.Sound ∧ checker.Sustains False after :=
  Replay.sustains_of_run sound
    (Coupling.Reporting.checkMeets Replay.reporting (Nat.le_refl depth) span
      ⟨rfl, rfl, rfl, rfl, rfl, constraintHeld⟩ ⟨rfl, actualHeld⟩) run

theorem examined_of_checkActual (actualHeld : checker.types.Holds actual) {inOrder : Bool}
    (run : (checkActual (checkConstraintsWithin span depth) depth ty span formal actual).run
      checker = .ok inOrder after) :
    after.Sound ∧ checker.Sustains False after ∧
      Examined span depth ty checker after formal actual inOrder := by
  obtain ⟨checked, after₁, run₁, rest⟩ := exists_of_run_bind run
  obtain ⟨sound₁, sustains₁⟩ := sustains_checkConstraintsWithin sound actualHeld run₁
  obtain ⟨_, after₂, run₂, rest⟩ := exists_of_run_bind rest
  have constraintHeld₁ := sustains₁.types_extend.holds constraintHeld
  obtain ⟨sound₂, sustains₂, constraintGave⟩ :=
    sustains_checkConstraintType sound₁ constraintHeld₁ run₂
  obtain ⟨meets, after₃, run₃, rest⟩ := exists_of_run_bind rest
  obtain ⟨rfl, rfl⟩ := EStateM.Result.ok.inj rest
  have sustains₁₂ := sustains₁.trans sustains₂
  obtain ⟨sound₃, sustains₃⟩ := sustains_checkMeets sound₂
    (sustains₂.types_extend.holds constraintHeld₁) (sustains₁₂.types_extend.holds actualHeld) run₃
  refine ⟨sound₃, sustains₁₂.trans sustains₃, ?_, fun other => ?_, fun inOrder => ?_⟩
  · refine ⟨checked, ⟨checker, after₁, sound, .refl _, run₁,
      (sustains₂.trans sustains₃).toPersists⟩,
      fun inOrder => ?_⟩
    exact of_decide_eq_true (Bool.and_eq_true_iff.mp inOrder).1
  · obtain ⟨checked', gave⟩ := constraintGave other
    exact ⟨checked', gave.widen sustains₁.toPersists sustains₃.toPersists⟩
  · obtain ⟨_, rfl⟩ := Bool.and_eq_true_iff.mp inOrder
    exact ⟨after₂, after₃, sound₂, sustains₁₂.toPersists, run_of_checkMeets run₃, .refl _⟩

end

theorem examined_of_checkActuals {pairs : List (Formal × TypeId)}
    (constraintsHeld : ∀ pair ∈ pairs, checker.types.Holds pair.1.constraint)
    (actualsHeld : ∀ pair ∈ pairs, checker.types.Holds pair.2) {inOrder : Bool}
    (run : (checkActuals (checkConstraintsWithin span depth) depth ty span pairs).run checker =
      .ok inOrder after) :
    after.Sound ∧ checker.Sustains False after ∧ ∀ pair ∈ pairs,
      Examined span depth ty checker after pair.1 pair.2 inOrder := by
  induction pairs generalizing checker inOrder with
  | nil =>
    obtain ⟨_, rfl⟩ := EStateM.Result.ok.inj run
    exact ⟨sound, .refl _, by simp⟩
  | cons pair rest ih =>
    rw [List.forall_mem_cons] at constraintsHeld actualsHeld
    obtain ⟨first, stop, run₁, remaining⟩ := exists_of_run_bind run
    obtain ⟨stopSound, stopSustains, firstExamined⟩ :=
      examined_of_checkActual sound constraintsHeld.1 actualsHeld.1 run₁
    obtain ⟨others, after, run₂, remaining⟩ := exists_of_run_bind remaining
    obtain ⟨rfl, rfl⟩ := EStateM.Result.ok.inj remaining
    have extension := stopSustains.types_extend
    obtain ⟨afterSound, afterSustains, othersExamined⟩ := ih stopSound
      (fun other member => extension.holds (constraintsHeld.2 other member))
      (fun other member => extension.holds (actualsHeld.2 other member)) run₂
    refine ⟨afterSound, stopSustains.trans afterSustains,
      List.forall_mem_cons.mpr ⟨?_, fun other member => ?_⟩⟩
    · exact firstExamined.widen (.refl _) afterSustains.toPersists fun all =>
        (Bool.and_eq_true_iff.mp all).1
    · exact (othersExamined other member).widen stopSustains.toPersists (.refl _) fun all =>
        (Bool.and_eq_true_iff.mp all).2

end

/-! ## The whole type -/

/-- The number of actuals of the type fits, and each actual that is passed for a formal meets
its constraint. -/
structure Fitting (depth : Nat) (checker : Checker) (ty : TypeId) : Prop where
  accepts : ∀ id args outer isRef isThis,
    checker.types.node ty = .applied id args outer isRef isThis →
      checker.features.Accepts id args.length
  meets : ∀ formal actual, checker.Passes ty formal actual →
    ∃ idle, (meetsConstraintWithin depth formal.constraint actual).run checker = .ok true idle

theorem eq_or_error_of_checkConstraintsWithin {result : TypeId} {span : Span}
    (run : (checkConstraintsWithin span depth ty).run checker = .ok result after) :
    result = ty ∨ result = .error := by
  cases depth with
  | zero => cases run
  | succ depth =>
    obtain ⟨_, _, _, run⟩ := exists_of_run_bind run
    obtain ⟨layer, _, _, run⟩ := exists_of_run_bind run
    cases layer with
    | applied id args outer isRef isThis =>
      obtain ⟨declared, _, _, run⟩ := exists_of_run_bind run
      dsimp only at run
      split at run
      · obtain ⟨_, _, _, run⟩ := exists_of_run_bind run
        exact .inr (EStateM.Result.ok.inj run).1.symm
      · obtain ⟨inOrder, _, _, run⟩ := exists_of_run_bind run
        cases inOrder with
        | true => exact .inl (EStateM.Result.ok.inj run).1.symm
        | false => exact .inr (EStateM.Result.ok.inj run).1.symm
    | _ => exact .inl (EStateM.Result.ok.inj run).1.symm

theorem fitting_of_not_applied (depth : Nat)
    (notApplied : ∀ id args outer isRef isThis,
      checker.types.node ty ≠ .applied id args outer isRef isThis) {inner : TypeId}
    (reaches : checker.ReachesThrough ty inner) : Fitting depth checker inner := by
  have noPasses : ∀ formal actual, ¬ checker.Passes ty formal actual := by
    rintro formal actual ⟨id, args, outer, isRef, isThis, node, _⟩
    exact notApplied id args outer isRef isThis node
  rcases Relation.ReflTransGen.cases_head reaches with rfl | ⟨_, ⟨formal, passes⟩, _⟩
  · exact ⟨fun id args outer isRef isThis node =>
        absurd node (notApplied id args outer isRef isThis),
      fun formal actual passes => absurd passes (noPasses formal actual)⟩
  · exact absurd passes (noPasses formal _)

theorem held_of_mem_zip (wellFormed : checker.WellFormed) (held : checker.types.Holds ty)
    {id : FeatureId} {args : List TypeId} {outer : Option TypeId} {isRef isThis : Bool}
    (node : checker.types.node ty = .applied id args outer isRef isThis) {declared : Feature}
    (found : checker.features.get id = .ok declared)
    (member : (formal, actual) ∈ declared.formals.zip args) :
    checker.types.Holds formal.constraint ∧ checker.types.Holds actual := by
  have ⟨isFormal, isArg⟩ := List.of_mem_zip member
  refine ⟨(wellFormed.features_wellFormed id declared found).constraint_held _ isFormal,
    wellFormed.types_canonical.child_holds held ?_⟩
  rw [node]
  exact List.mem_append_left _ isArg

theorem examined_of_checkConstraintsWithin (sound : checker.Sound) (held : checker.types.Holds ty)
    {span : Span} {result : TypeId}
    (run : (checkConstraintsWithin span (depth + 1) ty).run checker = .ok result after)
    {id : FeatureId} {args : List TypeId} {outer : Option TypeId} {isRef isThis : Bool}
    (node : checker.types.node ty = .applied id args outer isRef isThis) :
    ∃ declared, checker.features.get id = .ok declared ∧
      (declared.accepts args.length = true ∨ result = .error) ∧
      (declared.accepts args.length = true → ∃ inOrder, (inOrder = true ∨ result = .error) ∧
        ∀ pair ∈ declared.formals.zip args,
          Examined span depth ty checker after pair.1 pair.2 inOrder) := by
  obtain ⟨_, entered, runEntry, run⟩ := exists_of_run_bind run
  obtain ⟨enteredSound, sustains⟩ := Replay.sustains_of_run sound
    (Replay.engine.recordEntry .constraints ⟨rfl, held⟩) runEntry
  obtain ⟨layer, _, runNode, run⟩ := exists_of_run_bind run
  rw [run_node] at runNode
  obtain ⟨rfl, rfl⟩ := EStateM.Result.ok.inj runNode
  rw [sustains.types_extend.node_eq held, node] at run
  obtain ⟨declared, _, runFeature, run⟩ := exists_of_run_bind run
  rw [feature, run_readFeatures, sustains.features_eq] at runFeature
  cases found : checker.features.get id with
  | error failure => simp [found, answer] at runFeature
  | ok declared' =>
    rw [found, answer] at runFeature
    obtain ⟨rfl, rfl⟩ := EStateM.Result.ok.inj runFeature
    refine ⟨declared', rfl, ?_⟩
    dsimp only at run
    split at run
    next unfit =>
      obtain ⟨_, _, _, run⟩ := exists_of_run_bind run
      exact ⟨.inr (EStateM.Result.ok.inj run).1.symm, fun fits => by simp [fits] at unfit⟩
    next fits =>
      refine ⟨.inl (by simpa using fits), fun _ => ?_⟩
      obtain ⟨inOrder, stop, runActuals, run⟩ := exists_of_run_bind run
      have pairsHeld := fun pair (member : pair ∈ declared'.formals.zip args) =>
        held_of_mem_zip sound.toWellFormed held node found member
      obtain ⟨_, _, examined⟩ := examined_of_checkActuals enteredSound
        (fun pair member => sustains.types_extend.holds (pairsHeld pair member).1)
        (fun pair member => sustains.types_extend.holds (pairsHeld pair member).2) runActuals
      have stopEq : stop = after ∧ (inOrder = true ∨ result = .error) := by
        cases inOrder with
        | true => exact ⟨(EStateM.Result.ok.inj run).2, .inl rfl⟩
        | false => exact ⟨(EStateM.Result.ok.inj run).2, .inr (EStateM.Result.ok.inj run).1.symm⟩
      obtain ⟨rfl, orError⟩ := stopEq
      exact ⟨inOrder, orError, fun pair member =>
        (examined pair member).widen sustains.toPersists (.refl _) fun all => all⟩

theorem fitting_of_checkConstraintsWithin {later : Checker} (sound : checker.Sound)
    (held : checker.types.Holds ty) {span : Span} {limit : Nat} (enough : depth ≤ limit)
    (run : (checkConstraintsWithin span depth ty).run checker = .ok ty after)
    (laterSound : later.Sound) (persists : after.Persists later) {inner : TypeId}
    (reaches : later.ReachesThrough ty inner) : Fitting limit later inner := by
  induction depth generalizing checker after ty with
  | zero => cases run
  | succ depth ih =>
    obtain ⟨_, sustains⟩ := sustains_checkConstraintsWithin sound held run
    have allPersists := sustains.toPersists.trans persists
    have nodeEq : later.types.node ty = checker.types.node ty :=
      allPersists.types_extend.node_eq held
    cases node : checker.types.node ty with
    | applied id args outer isRef isThis =>
      have typed : ty ≠ .error := by
        rintro rfl
        cases node.symm.trans sound.types_canonical.error_exact.2
      obtain ⟨declared, found, accepts, examined⟩ :=
        examined_of_checkConstraintsWithin sound held run node
      have accepts := accepts.resolve_right typed
      obtain ⟨inOrder, allInOrder, examined⟩ := examined accepts
      have allInOrder := allInOrder.resolve_right typed
      obtain ⟨companion, foundLater⟩ :=
        allPersists.features_grow.get_eq id declared found
      -- The actuals on the way to `inner` have been checked on the way.
      rcases Relation.ReflTransGen.cases_head reaches with
        rfl | ⟨actual, ⟨formal, passes⟩, path⟩
      · refine ⟨fun id' args' _ _ _ node' => ?_, fun formal actual passes => ?_⟩
        · obtain ⟨rfl, rfl, _⟩ := Node.applied.inj ((nodeEq.trans node).symm.trans node')
          exact ⟨_, foundLater, accepts⟩
        · have member := (passes_iff (nodeEq.trans node) foundLater).mp passes
          have held := held_of_mem_zip sound.toWellFormed held node found member
          exact (((examined _ member).meets allInOrder).widen (.refl _) persists).meets held.1
            held.2 laterSound (Nat.le_of_succ_le enough)
      · have member := (passes_iff (nodeEq.trans node) foundLater).mp passes
        have held := held_of_mem_zip sound.toWellFormed held node found member
        obtain ⟨checked, ⟨start, stop, startSound, toStart, runActual, toEnd⟩, checkedTyped⟩ :=
          (examined _ member).actual_checked
        obtain rfl := (eq_or_error_of_checkConstraintsWithin runActual).resolve_right
          (checkedTyped allInOrder)
        exact ih startSound (toStart.types_extend.holds held.2)
          (Nat.le_of_succ_le enough) runActual (toEnd.trans persists) path
    | _ => exact fitting_of_not_applied limit (by simp [nodeEq, node]) reaches

/-- If the check gives the type back, then wherever actuals of the type lead, the number of
actuals fits and each actual meets the constraint of the formal it is passed for. -/
theorem checkConstraints_sound
    (checker : Checker) (sound : checker.Sound) (ty : TypeId) (held : checker.types.Holds ty)
    (span : Span) (after : Checker)
    (run : (checkConstraints ty span).run checker = .ok ty after) (inner : TypeId)
    (reaches : checker.ReachesThrough ty inner) :
    (∀ id args outer isRef isThis,
      checker.types.node inner = .applied id args outer isRef isThis →
        checker.features.Accepts id args.length) ∧
    ∀ formal actual, checker.Passes inner formal actual →
      ∃ last, (meetsConstraint formal.constraint actual).run after = .ok true last := by
  rw [checkConstraints, run_withinLimit] at run
  obtain ⟨afterSound, sustains⟩ := sustains_checkConstraintsWithin sound held run
  have persists := sustains.toPersists
  obtain ⟨innerHeld, path⟩ :=
    reaches.of_persists persists sound.types_canonical.toCoherent held
  have fitting := fitting_of_checkConstraintsWithin sound held (Nat.le_refl _) run afterSound
    (.refl after) path
  refine ⟨fun id args outer isRef isThis node => ?_, fun formal actual passes => ?_⟩
  · rw [← persists.types_extend.node_eq innerHeld] at node
    rw [← sustains.features_eq]
    exact fitting.accepts id args outer isRef isThis node
  · obtain ⟨last, run'⟩ := fitting.meets formal actual (passes.of_persists persists innerHeld)
    rw [← persists.options_eq] at run'
    exact ⟨last, by rw [meetsConstraint, run_withinLimit, run']⟩

/-- A tuple of a vector and a number.  Its open formal takes both; the formal of the vector is
for numbers. -/
theorem checkConstraints_sound_tuple :
    let start := afterAll
      [.declare (.feature "any" none true), .construct (.instantiate ⟨1⟩ []),
        .declare (.feature "numeric" none true), .declare (.parent ⟨2⟩ ⟨1⟩ []),
        .construct (.instantiate ⟨2⟩ []), .declare (.feature "i32" none false),
        .declare (.parent ⟨3⟩ ⟨2⟩ []), .construct (.instantiate ⟨3⟩ []),
        .declare (.feature "vector" none true), .declare (.formal ⟨4⟩ "N" ⟨4⟩ false {}),
        .declare (.parent ⟨4⟩ ⟨1⟩ []), .declare (.feature "tuple" none false),
        .declare (.formal ⟨5⟩ "T" ⟨3⟩ true {}), .construct (.instantiate ⟨4⟩ [⟨5⟩]),
        .construct (.instantiate ⟨5⟩ [⟨8⟩, ⟨5⟩])] {}
    start.Reachable ∧ start.ReachesThrough ⟨9⟩ ⟨8⟩ ∧
      start.types.node ⟨8⟩ = .applied ⟨4⟩ [⟨5⟩] none true false ∧
      ∃ after formal, (checkConstraints ⟨9⟩ {}).run start = .ok ⟨9⟩ after ∧
        start.Passes ⟨8⟩ formal ⟨5⟩ ∧ formal.constraint = ⟨4⟩ ∧
        start.features.Accepts ⟨4⟩ 1 ∧
        ∃ last, (meetsConstraint formal.constraint ⟨5⟩).run after = .ok true last := by
  intro start
  have reachable : start.Reachable := (Reachable.initial {} {}).steps (by decide +kernel)
  have tupleNode : start.types.node ⟨9⟩ = .applied ⟨5⟩ [⟨8⟩, ⟨5⟩] none false false := by
    decide +kernel
  have vectorNode : start.types.node ⟨8⟩ = .applied ⟨4⟩ [⟨5⟩] none true false := by
    decide +kernel
  have passed : (checkConstraints ⟨9⟩ {}).run' start = some ⟨9⟩ := by decide +kernel
  obtain ⟨after, run⟩ := run'_eq_some_iff.mp passed
  obtain ⟨openFormal, opens, _⟩ := exists_passes tupleNode 0 rfl ⟨3⟩ (by decide +kernel)
  obtain ⟨formal, passes, constraintEq⟩ :=
    exists_passes vectorNode 0 rfl ⟨4⟩ (by decide +kernel)
  have reaches : start.ReachesThrough ⟨9⟩ ⟨8⟩ := .single ⟨openFormal, opens⟩
  obtain ⟨accepts, meets⟩ := checkConstraints_sound start reachable.sound ⟨9⟩ (by decide +kernel)
    {} after run ⟨8⟩ reaches
  exact ⟨reachable, reaches, vectorNode, after, formal, run, passes, constraintEq,
    accepts _ _ _ _ _ vectorNode, meets formal ⟨5⟩ passes⟩

/-- The second summand is passed for the same open formal as the first, but it is not
checked: a sum takes a text among its numbers. -/
theorem checkConstraints_overlooks_text :
    let start := afterAll
      [.declare (.feature "any" none true), .declare (.feature "numeric" none true),
        .construct (.instantiate ⟨2⟩ []), .declare (.feature "i32" none false),
        .declare (.parent ⟨3⟩ ⟨2⟩ []), .construct (.instantiate ⟨3⟩ []),
        .declare (.feature "text" none false), .construct (.instantiate ⟨4⟩ []),
        .declare (.feature "sum" none false), .declare (.formal ⟨5⟩ "N" ⟨3⟩ true {}),
        .construct (.instantiate ⟨5⟩ [⟨4⟩, ⟨5⟩])] {}
    start.Reachable ∧ start.types.mentionsError ⟨7⟩ = false ∧
      start.types.node ⟨7⟩ = .applied ⟨5⟩ [⟨4⟩, ⟨5⟩] none false false ∧
      (start.features.get ⟨5⟩).toOption.map (·.formals.map fun formal =>
        (formal.isOpen, formal.constraint)) = some [(true, ⟨3⟩)] ∧
      (do return (← checkConstraints ⟨7⟩ {}, ← meetsConstraint ⟨3⟩ ⟨5⟩)).run' start =
        some (⟨7⟩, false) := by
  intro start
  exact ⟨(Reachable.initial {} {}).steps (by decide +kernel), by decide +kernel,
    by decide +kernel, by decide +kernel, by decide +kernel⟩

end FeatureTypes.Checker

import FeatureTypes.Proofs.Assignability.Transitivity
import FeatureTypes.Proofs.Substitution.Boxing

/-!
# Assignments without wrapping

A choice takes only its own values when nothing may be wrapped.  Whether the target is
a choice is asked before the formals for the type at hand are dropped.  So a choice that
such a formal stands for is not recognized, and takes the values of its summands.
-/

namespace FeatureTypes

namespace Signature

/-- Whether a type applies a choice. -/
def isChoice (signature : Signature) (ty : Ty) : Option Bool :=
  match ty.appliedFeature? with
  | some id => do return (← signature.feature id).summands.isSome
  | none => return false

theorem appliedFeature?_of_dropped {signature : Signature} {ty plain : Ty}
    (dropped : signature.dropThisFormals ty = some plain) (notFormal : ty.isFormal = false) :
    plain.appliedFeature? = ty.appliedFeature? := by
  cases ty with
  | formal id boxed => simp [Ty.isFormal] at notFormal
  | applied feature args outer isRef isThis =>
    obtain ⟨args', outer', _, _, rfl⟩ := dropThisFormals_applied dropped
    rfl
  | _ =>
    obtain rfl := Option.some.inj dropped
    rfl

theorem takes_byValue_iff {signature : Signature} {target actual plain : Ty}
    (dropped : signature.dropThisFormals target = some plain) (byValue : plain.isRef = false) :
    signature.Takes target actual ↔ ∃ plainActual,
      signature.dropThisFormals actual = some plainActual ∧
        (plain.takesAtOnce plainActual = true ∨ ∃ summands,
          signature.summands? plain = some (some summands) ∧
            ∃ summand ∈ summands, signature.Takes summand plainActual) := by
  constructor
  · intro takes
    obtain ⟨_, plainActual, _, actualDropped⟩ := takes.plain
    refine ⟨plainActual, actualDropped, ?_⟩
    simpa [Ty.ancestorsCount, byValue] using (signature.takes_iff dropped actualDropped).mp takes
  · rintro ⟨plainActual, actualDropped, takes⟩
    rw [signature.takes_iff dropped actualDropped]
    simpa [Ty.ancestorsCount, byValue] using takes

end Signature

namespace Checker

variable {signature : Signature} {checker : Checker}

theorem means_isChoice (obeys : checker.Obeys signature) {id : TypeId} {ty : Ty}
    (denotes : checker.types.Denotes id ty) :
    Means signature checker (isChoice id) (signature.isChoice ty) fun _ => Eq := by
  refine .look (run_readTypes checker _) ?_
  rw [denotes.feature?_eq obeys.types_canonical.toCoherent, Signature.isChoice]
  cases ty.appliedFeature? with
  | none => exact .pure obeys rfl
  | some feature =>
    refine .feature obeys feature ?_
    intro declared _
    exact .pure obeys (by simp [Feature.isChoice, Feature.outline])

/-- Whether a type is a choice by value once the formals for the type at hand are dropped. -/
def dropsToChoice (ty : TypeId) : CheckM Bool := do
  let plain ← dropThisFormals ty
  if ← readTypes (·.isRef plain) then return false
  isChoice plain

theorem finds_dropsToChoice (obeys : checker.Obeys signature) {id : TypeId} {ty : Ty}
    (denotes : checker.types.Denotes id ty) :
    Finds signature checker (dropsToChoice id) fun _ answer => answer = true →
      ∃ plain, signature.dropThisFormals ty = some plain ∧ plain.isRef = false ∧
        signature.isChoice plain = some true := by
  refine .bind (realizes_dropThisFormals (.free _) Demands.liberal_lax obeys denotes).finds ?_
  rintro after plainId obeys' _ ⟨plain, dropped, plainDenotes⟩
  refine .look (run_readTypes after _) ?_
  rw [plainDenotes.isRef_eq obeys'.types_canonical.toCoherent]
  cases isRef : plain.isRef with
  | true => exact .pure obeys' (by simp)
  | false =>
    refine Keeps.weaken (means_isChoice obeys' plainDenotes).finds ?_
    rintro _ answer _ _ ⟨_, choiceEq, rfl⟩ rfl
    exact ⟨plain, dropped, isRef, choiceEq⟩

theorem finds_isDirectlyAssignable (obeys : checker.Obeys signature) {target actual : TypeId}
    {target' actual' : Ty} (targetDenotes : checker.types.Denotes target target')
    (actualDenotes : checker.types.Denotes actual actual') :
    Finds signature checker (isDirectlyAssignable target actual) fun _ answer =>
      ∃ choice, signature.isChoice target' = some choice ∧
        (answer = true ↔ if choice then target = actual else signature.Takes target' actual') := by
  refine .look (EStateM.run_get checker) ?_
  refine .bind (means_isChoice obeys targetDenotes).finds ?_
  rintro after choice obeys' onward ⟨_, choiceEq, rfl⟩
  cases choice with
  | true => exact .pure obeys' ⟨true, choiceEq, by simp⟩
  | false =>
    refine .bind (assignableWithin_keepsTo _ false obeys'
      (obeys.denotes obeys' onward targetDenotes)
      (obeys.denotes obeys' onward actualDenotes)) ?_
    intro after' verdict obeys'' _ answers
    exact .pure obeys'' ⟨false, choiceEq, by simpa using answers.holds_iff⟩

/-- A choice by value takes without wrapping only what is equal to it, unless a formal for the
type at hand stands for the choice.  Such a formal takes whatever one of the summands takes. -/
theorem directlyAssignable_choice
    (start : Checker) (faithful : start.Faithful) (target actual : TypeId)
    (held : ∀ ty ∈ [target, actual], start.types.Holds ty)
    (isChoice : start.Answers (dropsToChoice target) true) {answer : Bool}
    (answers : start.Answers (isDirectlyAssignable target actual) answer) :
    (start.types.isFormal target = false → (answer = true ↔ target = actual)) ∧
      (start.types.isFormal target = true → (answer = true ↔ ∃ plain plainActual,
        start.signature.dropThisFormals (start.types.tree target) = some plain ∧
          start.signature.dropThisFormals (start.types.tree actual) = some plainActual ∧
            (plain.takesAtOnce plainActual = true ∨ ∃ summands,
              start.signature.summands? plain = some (some summands) ∧
                ∃ summand ∈ summands, start.signature.Takes summand plainActual))) := by
  simp only [List.forall_mem_cons] at held
  have coherent := faithful.wellFormed.types_canonical.toCoherent
  obtain ⟨plain, dropped, byValue, plainChoice⟩ := isChoice.holds faithful
    (fun checker obeys _ denotes => finds_dropsToChoice obeys (denotes target held.1)) rfl
  obtain ⟨choice, choiceEq, answerIff⟩ := answers.holds faithful
    fun checker obeys _ denotes => finds_isDirectlyAssignable obeys (denotes target held.1)
      (denotes actual held.2.1)
  have isFormalEq : start.types.isFormal target = (start.types.tree target).isFormal :=
    TypeStore.Denotes.isFormal_eq ⟨held.1, rfl⟩ coherent
  rw [isFormalEq]
  constructor
  · intro notFormal
    -- The feature is the same before and after, so the choice is recognized.
    rw [Signature.isChoice, ← Signature.appliedFeature?_of_dropped dropped notFormal,
      ← Signature.isChoice, plainChoice] at choiceEq
    obtain rfl := Option.some.inj choiceEq
    simpa using answerIff
  · intro isFormal
    have notApplied : (start.types.tree target).appliedFeature? = none := by
      cases treeEq : start.types.tree target with
      | applied => simp [treeEq, Ty.isFormal] at isFormal
      | _ => rfl
    rw [Signature.isChoice, notApplied] at choiceEq
    obtain rfl := Option.some.inj choiceEq
    rw [if_neg Bool.false_ne_true, Signature.takes_byValue_iff dropped byValue] at answerIff
    rw [answerIff]
    simp [dropped]

/-- A choice of two values, and the formal of its companion for the type at hand. -/
def maybeOperations : List Operation :=
  [.declare (.feature "any" none true), .declare (.feature "Type" none true),
    .declare (.typeRoot ⟨2⟩), .declare (.feature "i32" none false),
    .declare (.feature "nil" none false), .construct (.instantiate ⟨3⟩ []),
    .construct (.instantiate ⟨4⟩ []), .declare (.feature "maybe" none false),
    .declare (.choice ⟨5⟩ [⟨3⟩, ⟨4⟩]), .companion ⟨5⟩, .construct (.instantiate ⟨5⟩ []),
    .construct (.formal ⟨⟨6⟩, 0⟩)]

/-- The choice does not take the value of a summand, but the formal that stands for it does. -/
theorem directlyAssignable_choice_maybe :
    let start := afterAll maybeOperations {}
    start.options.memoize = true ∧ start.Answers (dropsToChoice ⟨5⟩) true ∧
      start.Answers (isDirectlyAssignable ⟨5⟩ ⟨3⟩) false ∧ (false = true ↔ (⟨5⟩ : TypeId) = ⟨3⟩) ∧
      start.Answers (dropsToChoice ⟨7⟩) true ∧
      start.Answers (isDirectlyAssignable ⟨7⟩ ⟨3⟩) true ∧
      ∃ plain plainActual,
        start.signature.dropThisFormals (.formal ⟨⟨6⟩, 0⟩ false) = some plain ∧
          start.signature.dropThisFormals (start.types.tree ⟨3⟩) = some plainActual ∧
            (plain.takesAtOnce plainActual = true ∨ ∃ summands,
              start.signature.summands? plain = some (some summands) ∧
                ∃ summand ∈ summands, start.signature.Takes summand plainActual) := by
  intro start
  have reachable : start.Reachable := (Reachable.initial {} {}).steps (by decide +kernel)
  have faithful : start.Faithful := reachable.faithful (by decide +kernel)
  have isChoice : start.Answers (dropsToChoice ⟨5⟩) true := answers_of_run (by decide +kernel)
  have refuses : start.Answers (isDirectlyAssignable ⟨5⟩ ⟨3⟩) false :=
    answers_of_run (by decide +kernel)
  have standsForChoice : start.Answers (dropsToChoice ⟨7⟩) true :=
    answers_of_run (by decide +kernel)
  have takes : start.Answers (isDirectlyAssignable ⟨7⟩ ⟨3⟩) true :=
    answers_of_run (by decide +kernel)
  have treeEq : start.types.tree ⟨7⟩ = .formal ⟨⟨6⟩, 0⟩ false := by decide +kernel
  obtain ⟨alone, _⟩ := directlyAssignable_choice start faithful ⟨5⟩ ⟨3⟩
    (by decide +kernel) isChoice refuses
  obtain ⟨_, wraps⟩ := directlyAssignable_choice start faithful ⟨7⟩ ⟨3⟩
    (by decide +kernel) standsForChoice takes
  rw [treeEq] at wraps
  exact ⟨by decide +kernel, isChoice, refuses, alone (by decide +kernel), standsForChoice, takes,
    (wraps (by decide +kernel)).mp rfl⟩

/-- The formal stands for a choice and takes the value of a summand, a type other than the
choice. -/
theorem directlyAssignable_unrecognized_choice :
    let start := afterAll maybeOperations {}
    start.types.tree ⟨3⟩ = .applied ⟨3⟩ [] none false false ∧
      start.Answers (dropsToChoice ⟨7⟩) true ∧
      start.Answers (isDirectlyAssignable ⟨7⟩ ⟨3⟩) true ∧
      start.Answers (do return decide ((← dropThisFormals ⟨7⟩) = (← dropThisFormals ⟨3⟩)))
        false := by
  intro start
  exact ⟨by decide +kernel, answers_of_run (by decide +kernel), answers_of_run (by decide +kernel),
    answers_of_run (by decide +kernel)⟩

end Checker

end FeatureTypes

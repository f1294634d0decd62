import FeatureTypes.Proofs.Checker.Registry
import FeatureTypes.Proofs.Meaning.Formals
import FeatureTypes.Proofs.Substitution.Filled

/-!
# Companions mirror their origins

A type in terms of the formals of a feature can be lifted to the companion of the feature:
its formals turn into those of the companion, one position further on.
-/

namespace FeatureTypes

namespace Checker

/-! ## Lifted types -/

section

variable {start : Checker} (lawful : start.features.Lawful) {origin companion : FeatureId}
  (isOrigin : start.features.originOf companion = some origin) {features : FeatureId → Prop}
  {ty : Ty} (own : ty.Over (·.feature = origin) features)

include lawful isOrigin own

/-- Around the companion there are no formals to lift. -/
theorem liftFormalsWithin_below {depth : Nat} {around : FeatureId}
    (below : around.index < companion.index) (deep : around.index < depth)
    (isDeclared : ∃ declared, start.features.get around = .ok declared) :
    start.signature.liftFormalsWithin depth around ty = some ty := by
  induction depth generalizing around with
  | zero => exact absurd deep (Nat.not_lt_zero _)
  | succ depth ih =>
    obtain ⟨declared, found⟩ := isDeclared
    rw [Signature.liftFormalsWithin, start.follows_signature.feature_eq around declared found]
    simp only [Option.bind_eq_bind, Option.bind_some, Feature.outline]
    cases isOuter : declared.outer with
    | none => rfl
    | some outer =>
      have outerEq := (FeatureTable.outerOf_eq found).trans isOuter
      have smaller := lawful.outer_lt around outer outerEq
      simp only [ih (by omega) (by omega) (lawful.outer_declared outerEq), Option.bind_some]
      cases isCompanion : declared.origin with
      | none => rfl
      | some source =>
        have different : source ≠ origin := by
          rintro rfl
          have linked := (FeatureTable.originOf_eq found).trans isCompanion
          rw [← lawful.companion_iff] at linked isOrigin
          obtain rfl := Option.some.inj (linked.symm.trans isOrigin)
          exact Nat.lt_irrefl _ below
        have foreign : ty.Over (·.feature ≠ source) features :=
          own.mono fun formal isOwn => isOwn ▸ different.symm
        have shiftable : ty.Shiftable source 1 :=
          foreign.shiftable fun formal isForeign belongs => absurd belongs isForeign
        exact (Ty.mapFormals_settleShifted shiftable around).trans
          (congrArg some (Ty.shift_of_foreign foreign around 1))

theorem liftFormals_eq_shift (bounded : ty.Over (·.index + 1 < FormalId.indexBound) features) :
    start.signature.liftFormalsWithin (companion.index + 1) companion ty =
      some (ty.shift origin companion 1) := by
  obtain ⟨mirror, found, originEq⟩ := FeatureTable.exists_of_originOf isOrigin
  obtain ⟨outer, outerEq⟩ := lawful.exists_outerOf_companion isOrigin
  have isOuter := (FeatureTable.outerOf_eq found).symm.trans outerEq
  have smaller := lawful.outer_lt companion outer outerEq
  rw [Signature.liftFormalsWithin, start.follows_signature.feature_eq companion mirror found]
  simp only [Option.bind_eq_bind, Option.bind_some, Feature.outline, isOuter, originEq,
    liftFormalsWithin_below lawful isOrigin own smaller smaller (lawful.outer_declared outerEq)]
  exact Ty.mapFormals_settleShifted (bounded.shiftable fun formal inBounds _ => inBounds) companion

end

end Checker

/-! ## Fillings of a companion -/

namespace Feature.Mirrors

variable {declared mirror : Feature} (mirrors : declared.Mirrors mirror)

include mirrors

theorem length_eq : mirror.formals.length = declared.formals.length + 1 := by
  obtain ⟨this, copies, formalsEq, _, copied⟩ := mirrors
  rw [formalsEq, List.length_cons, copied.length_eq]

theorem isOpen_eq (position : Nat) :
    mirror.formals[position + 1]?.any Formal.isOpen =
      declared.formals[position]?.any Formal.isOpen := by
  obtain ⟨this, copies, formalsEq, _, copied⟩ := mirrors
  rw [formalsEq, List.getElem?_cons_succ]
  clear formalsEq
  generalize declared.formals = formals at copied
  induction copied generalizing position with
  | nil => rfl
  | cons copies _ ih =>
    cases position with
    | zero => exact copies.2.1
    | succ position => exact ih position

theorem endsOpen_eq : mirror.endsOpen = declared.endsOpen := by
  have lengthEq := mirrors.length_eq
  rw [endsOpen, endsOpen, List.getLast?_eq_getElem?, List.getLast?_eq_getElem?, lengthEq,
    Nat.add_sub_cancel]
  cases formalsEq : declared.formals with
  | nil =>
    obtain ⟨this, copies, mirrorEq, closed, _⟩ := mirrors
    rw [mirrorEq]
    exact closed
  | cons formal rest =>
    rw [List.length_cons, mirrors.isOpen_eq, formalsEq, Nat.add_sub_cancel]

theorem accepts_succ (count : Nat) : mirror.accepts (count + 1) = declared.accepts count := by
  rw [accepts, accepts, mirrors.endsOpen_eq, mirrors.length_eq]
  simp only [Nat.add_le_add_iff_right, Nat.add_right_cancel_iff]

theorem mirroredBy (origin companion : FeatureId) (first : Ty) (actuals : List Ty) :
    (Filling.ofFeature origin declared actuals).MirroredBy
      (Filling.ofFeature companion mirror (first :: actuals)) :=
  ⟨mirrors.isOpen_eq, first, rfl⟩

end Feature.Mirrors

namespace Checker

open Filter

/-! ## Both ways -/

/-- Substitutes in the lifted type for the formals of `companion`, and in the type as it is for
those of `origin`. -/
def liftedBothWays (companion origin : FeatureId) (first : TypeId) (actuals : List TypeId)
    (target : TypeId) : CheckM (TypeId × TypeId) := do
  let lifted ← liftFormals companion target
  let mirrored ← substitute companion (first :: actuals) lifted
  let direct ← substitute origin actuals target
  return (mirrored, direct)

theorem realizes_liftedBothWays {start before checker : Checker}
    (resumes : start.Resumes (fun _ => True) before checker) {origin companion : FeatureId}
    {firstId targetId : TypeId} {actualIds : List TypeId} {first target lifted result : Ty}
    {actuals : List Ty}
    (actualsDenote : List.Forall₂ checker.types.Denotes (firstId :: actualIds) (first :: actuals))
    (denotes : checker.types.Denotes targetId target)
    (isLifted : start.signature.liftFormalsWithin (companion.index + 1) companion target =
      some lifted)
    (mirrored : start.smoothWithin (fun _ => True) checker.options.depthLimit companion
      (first :: actuals) lifted = some result)
    (direct : start.smoothWithin (fun _ => True) checker.options.depthLimit origin actuals target =
      some result) :
    Realizes (.smooth start (fun _ => True) before) checker
      (liftedBothWays companion origin firstId actualIds targetId) (some result)
      fun after results value =>
        after.types.Denotes results.1 value ∧ after.types.Denotes results.2 value := by
  have lifts := (rewrites_liftFormalsWithin start (companion.index + 1) companion).realizes
    (.smooth start _ before) (fun _ _ => trivial) resumes denotes
  rw [isLifted] at lifts
  refine .follow lifts ?_
  intro after₁ liftedId resumes₁ onward₁ liftedDenotes
  have substitutes := realizes_substitute companion resumes₁
    (resumes.denotesAll resumes₁.toObeys onward₁ actualsDenote) liftedDenotes
  rw [onward₁.options_eq, mirrored] at substitutes
  refine .follow substitutes ?_
  intro after₂ mirroredId resumes₂ onward₂ mirroredDenotes
  have onward := onward₁.trans onward₂
  have others := (List.forall₂_cons.mp (resumes.denotesAll resumes₂.toObeys onward actualsDenote)).2
  have substitutes := realizes_substitute origin resumes₂ others
    (resumes.denotes resumes₂.toObeys onward denotes)
  rw [onward.options_eq, direct] at substitutes
  refine .follow substitutes ?_
  intro after₃ directId resumes₃ onward₃ directDenotes
  exact .pure resumes₃
    ⟨resumes₂.denotes resumes₃.toObeys onward₃ mirroredDenotes, directDenotes⟩

/-- A lifted target comes to the same type as the target itself. -/
theorem smooth_lifted {start : Checker} (wellFormed : start.WellFormed)
    (lawful : start.features.Lawful) {origin companion : FeatureId} {declared mirror : Feature}
    (found : start.features.get origin = .ok declared)
    (foundMirror : start.features.get companion = .ok mirror) (mirrors : declared.Mirrors mirror)
    (grounded : ∀ id ∈ [origin, companion], start.features.Grounded id) (first : Ty)
    {actuals : List Ty} (accepts : declared.accepts actuals.length = true) {target : Ty}
    (covered : target.Over (start.features.Owns origin) start.features.DeclaresPlain) :
    ∃ result, start.smooth (fun _ => True) companion (first :: actuals)
        (target.shift origin companion 1) = some result ∧
      start.smooth (fun _ => True) origin actuals target = some result := by
  rw [List.forall_mem_cons, List.forall_mem_singleton] at grounded
  have liftedFillable : (target.shift origin companion 1).Over
      (start.features.Fillable companion) start.features.DeclaresPlain := by
    apply Ty.Over.shift
    refine covered.mono fun id owned => ⟨owned.1, fun _ => ⟨mirror, foundMirror, ?_⟩,
      fun foreign => absurd rfl foreign⟩
    rw [mirrors.length_eq]
    exact Nat.succ_lt_succ (FeatureTable.Owns.index_lt owned found)
  have acceptsMirrored : mirror.accepts (first :: actuals).length = true :=
    (mirrors.accepts_succ actuals.length).trans accepts
  refine ⟨(Filling.ofFeature origin declared actuals).fill target, ?_, ?_⟩
  · rw [← (mirrors.mirroredBy origin companion first actuals).fill_shift
      (covered.mono fun id owned => owned.1)]
    exact smooth_fill wellFormed grounded.2 foundMirror (fun _ => trivial)
      (lawful.numbered companion mirror foundMirror) acceptsMirrored liftedFillable
  · exact smooth_fill_of_owns wellFormed grounded.1 found lawful accepts covered

/-- As long as a feature and its companion get no further formals, types that are lifted to
the companion are substituted like those of the feature. -/
theorem substitute_lifted
    {start before created checker : Checker} (fresh : start.features = .initial)
    (registers : start.Registers before) {asked : FeatureId} {answer : Option FeatureId}
    (creation : (companion? asked).run before = .ok answer created)
    {origin companion : FeatureId} (missing : before.features.companionOf origin = none)
    (isCompanion : created.features.companionOf origin = some companion)
    (continues : created.Registers checker)
    (formalsKept : ∀ id ∈ [origin, companion],
      checker.features.formalsOf id = created.features.formalsOf id)
    (wellFormed : checker.WellFormed)
    (grounded : ∀ id ∈ [origin, companion], checker.features.Grounded id)
    (few : (checker.features.formalsOf origin).length < FormalId.indexBound)
    {first target : TypeId} {actuals : List TypeId}
    (held : ∀ ty ∈ first :: target :: actuals, checker.types.Holds ty)
    (accepts : checker.features.Accepts origin actuals.length)
    (covered : (checker.types.tree target).Over (checker.features.Owns origin)
      checker.features.DeclaresPlain) :
    ∃ enough, ∀ later : Checker, later.types = checker.types →
      later.features = checker.features → later.Faithful → enough ≤ later.options.depthLimit →
        ∃ result after, (liftedBothWays companion origin first actuals target).run later =
          .ok (result, result) after := by
  have provided := ensures_companionWithin
    (registers.lawful (fresh ▸ FeatureTable.initial_lawful)) _ asked _ _ creation
  obtain ⟨before', mirrorBefore, foundBefore, foundMirrorBefore, mirrorsBefore⟩ :=
    provided.mirrors_new origin companion missing isCompanion
  -- Origins stay what they are, and so do the formals of the two features.
  have develops := continues.develops provided.lawful
  obtain ⟨declared, found, _⟩ := develops origin before' foundBefore
  obtain ⟨mirror, foundMirror, _⟩ := develops companion mirrorBefore foundMirrorBefore
  have lawful := continues.lawful provided.lawful
  have isOrigin : checker.features.originOf companion = some origin := (lawful.companion_iff ..).mp
    (develops.companionOf_eq provided.lawful lawful isCompanion)
  have mirrors : declared.Mirrors mirror := by
    rw [List.forall_mem_cons, List.forall_mem_singleton] at formalsKept
    rw [FeatureTable.formalsOf_eq found, FeatureTable.formalsOf_eq foundBefore,
      FeatureTable.formalsOf_eq foundMirror, FeatureTable.formalsOf_eq foundMirrorBefore]
      at formalsKept
    rw [Feature.Mirrors, formalsKept.1, formalsKept.2]
    exact mirrorsBefore
  rw [FeatureTable.formalsOf_eq found] at few
  obtain ⟨declared', found', fits⟩ := accepts
  obtain rfl := Except.ok.inj (found.symm.trans found')
  have fitsTrees : declared.accepts (actuals.map checker.types.tree).length = true := by
    rwa [List.length_map]
  have lifts := liftFormals_eq_shift lawful isOrigin (covered.mono fun id owned => owned.1)
    (covered.mono fun id owned => by have := FeatureTable.Owns.index_lt owned found; omega)
  obtain ⟨result, mirrored, direct⟩ := smooth_lifted wellFormed lawful found foundMirror mirrors
    grounded (checker.types.tree first) fitsTrees covered
  obtain ⟨enough, settled⟩ := eventually_atTop.mp
    ((eventually_settled (.call (companion, _, _)) mirrored).and
      (eventually_settled (.call (origin, _, _)) direct))
  refine ⟨enough, fun later typesEq featuresEq faithful deep => ?_⟩
  have denotes : ∀ ty ∈ first :: target :: actuals,
      later.types.Denotes ty (checker.types.tree ty) := by
    rw [typesEq]
    exact fun ty member => ⟨held ty member, rfl⟩
  simp only [List.forall_mem_cons] at denotes
  obtain ⟨firstDenotes, targetDenotes, actualsDenote⟩ := denotes
  have settled := settled _ deep
  obtain ⟨⟨mirrored, direct⟩, after, run, resumes, _, mirroredDenotes, directDenotes⟩ :=
    (realizes_liftedBothWays (Resumes.of_faithful typesEq featuresEq faithful _)
      (.cons firstDenotes (List.forall₂_map_right_iff.mpr (List.forall₂_same.mpr actualsDenote)))
      targetDenotes lifts settled.1 settled.2).exists_run
  obtain rfl : mirrored = direct :=
    (mirroredDenotes.inj directDenotes resumes.types_canonical.toCoherent).mpr rfl
  exact ⟨mirrored, after, run⟩

def tupleOperations : List Operation :=
  [.declare (.feature "any" none true), .construct (.instantiate ⟨1⟩ []),
    .declare (.feature "Type" none true), .declare (.typeRoot ⟨2⟩),
    .declare (.feature "tuple" none false), .declare (.formal ⟨3⟩ "A" ⟨3⟩ false {}),
    .declare (.formal ⟨3⟩ "B" ⟨3⟩ true {}), .declare (.parent ⟨3⟩ ⟨1⟩ [])]

/-- The target holds the open formal at the end of two nested lists, and it takes two of the
three actuals. -/
theorem substitute_lifted_tuple :
    let before := afterAll tupleOperations {}
    let created := (Operation.companion ⟨3⟩).after before
    let checker := (Operation.construct (.applied ⟨3⟩ [⟨6⟩, ⟨5⟩] none false)).after created
    before.features.companionOf ⟨3⟩ = none ∧ created.features.companionOf ⟨3⟩ = some ⟨4⟩ ∧
      checker.features.Accepts ⟨3⟩ 3 ∧
      (checker.types.tree ⟨8⟩).Over (checker.features.Owns ⟨3⟩) checker.features.DeclaresPlain ∧
      ∃ enough, ∀ depthLimit ≥ enough, ∃ result after,
        (liftedBothWays ⟨4⟩ ⟨3⟩ ⟨7⟩ [⟨3⟩, ⟨7⟩, ⟨3⟩] ⟨8⟩).run (checker.limited depthLimit) =
          .ok (result, result) after := by
  intro before created checker
  have registers : Registers {} before := Registers.refl.steps (by decide +kernel)
  have missing : before.features.companionOf ⟨3⟩ = none := by decide +kernel
  have creation : (companion? ⟨3⟩).run before = .ok (some ⟨4⟩) created := by
    obtain ⟨after, run⟩ : ∃ after, (companion? ⟨3⟩).run before = .ok (some ⟨4⟩) after :=
      run'_eq_some_iff.mp (by decide +kernel)
    have ran : (Operation.companion ⟨3⟩).run.run before = .ok (.feature (some ⟨4⟩)) after := by
      rw [Operation.run, EStateM.run_bind, run]
      rfl
    have isCreated : created = after := by
      simp only [created, Operation.after, ran]
    rw [isCreated]
    exact run
  have continues : created.Registers checker := Registers.refl.step rfl (by decide +kernel)
  have reachable : before.Reachable := (Reachable.initial {} {}).steps (by decide +kernel)
  have reachable₁ : created.Reachable :=
    reachable.step (.companion ⟨3⟩) (by decide +kernel) (by decide +kernel)
  have reachable₂ : checker.Reachable := reachable₁.step _ (by decide +kernel) (by decide +kernel)
  have grounded : ∀ id, checker.features.Grounded id :=
    FeatureTable.grounded_of_index_lt (FeatureTable.forall_declared (by decide +kernel))
  have accepts : checker.features.Accepts ⟨3⟩ [(⟨3⟩ : TypeId), ⟨7⟩, ⟨3⟩].length := by
    decide +kernel
  have covered : (checker.types.tree ⟨8⟩).Over (checker.features.Owns ⟨3⟩)
      checker.features.DeclaresPlain := by
    decide +kernel
  have formalsKept : ∀ id ∈ [⟨3⟩, ⟨4⟩],
      checker.features.formalsOf id = created.features.formalsOf id :=
    fun id _ => congrArg (·.formalsOf id) (features_after_construct _ created)
  have few : (checker.features.formalsOf ⟨3⟩).length < FormalId.indexBound := by decide +kernel
  have held : ∀ ty ∈ [⟨7⟩, ⟨8⟩, ⟨3⟩, ⟨7⟩, ⟨3⟩], checker.types.Holds ty := by decide +kernel
  have faithful : checker.Faithful := reachable₂.faithful (by decide +kernel)
  have linked : created.features.companionOf ⟨3⟩ = some ⟨4⟩ := by decide +kernel
  clear_value before created checker
  obtain ⟨enough, runs⟩ := substitute_lifted rfl registers creation missing linked continues
    formalsKept faithful.wellFormed (fun id _ => grounded id) few held accepts covered
  exact ⟨missing, linked, accepts, covered, enough, fun depthLimit =>
    runs (checker.limited depthLimit) rfl rfl (faithful.limited depthLimit)⟩

end Checker

end FeatureTypes

import FeatureTypes.Proofs.Assignability.Transitivity
import FeatureTypes.Proofs.Feature.Flat
import FeatureTypes.Proofs.Substitution.Composition

/-!
# Assignability is stable under instantiation

Only the step from a formal to its constraint has no counterpart: there the actual takes the
place of the formal.
-/

namespace FeatureTypes

variable {declared : Feature} {table : FeatureTable} {formals : FormalId → Prop} {ty : Ty}

open FeatureTable (ownReplacement)

/-! ## Formals that are kept -/

namespace Signature

variable {signature : Signature}

def KeepsFormal (signature : Signature) (id : FormalId) : Prop :=
  ∀ boxed, signature.dropThisFormal id boxed = some (.formal id boxed)

theorem IsPlain.keepsFormal {id : FormalId} {outline : Outline}
    (plain : signature.IsPlain id.feature)
    (declared : signature.feature id.feature = some outline) : signature.KeepsFormal id := by
  intro boxed
  by_cases first : id.index = 0
  · simp [dropThisFormal, first, declared, plain outline declared]
  · simp [dropThisFormal, first]

theorem dropThisFormals_of_proper (proper : table.Proper signature.KeepsFormal ty) :
    signature.dropThisFormals ty = some ty := by
  apply Keeps.dropThisFormals
  intro id boxed occurs
  exact proper (.formal id boxed) occurs boxed

theorem proper_of_dropped (plain : ∀ id, signature.IsPlain id) {dropped : Ty}
    (proper : table.Proper formals ty) (drops : signature.dropThisFormals ty = some dropped) :
    table.Proper signature.KeepsFormal ty := by
  induction ty generalizing dropped with
  | formal id boxed =>
    rw [FeatureTable.proper_formal_iff]
    rw [dropThisFormals_formal] at drops
    by_cases first : id.index = 0
    · rw [dropThisFormal, if_neg (by simp [first])] at drops
      obtain ⟨outline, declared, _⟩ := Option.bind_eq_some_iff.mp drops
      exact (plain id.feature).keepsFormal declared
    · intro boxed
      simp [dropThisFormal, first]
  | applied feature args outer isRef isThis argsKeep _ =>
    rw [FeatureTable.proper_applied_iff] at proper ⊢
    obtain ⟨fits, argsProper, outermost, notThis⟩ := proper
    obtain ⟨args', _, argsEq, _, _⟩ := dropThisFormals_applied drops
    refine ⟨fits, fun arg member => ?_, outermost, notThis⟩
    obtain ⟨lengthEq, each⟩ := List.forall₂_iff_get.mp (mapM_eq_some_iff.mp argsEq)
    obtain ⟨position, bound, rfl⟩ := List.mem_iff_getElem.mp member
    exact argsKeep _ member (argsProper _ member) (each position bound (lengthEq ▸ bound))
  | void => exact table.proper_void _
  | _ => exact (proper _ (Ty.self_mem_parts _)).elim

theorem substituteVia_applied (signature : Signature) (feature : FeatureId) (args : List Ty)
    (isRef isThis : Bool) (target : Ty) :
    signature.substituteVia (.applied feature args none isRef isThis) target =
      signature.substitute feature args target := by
  cases mentions : target.mentionsFormal with
  | false => rw [substituteVia_of_closed mentions, substitute_of_closed mentions]
  | true =>
    rw [substituteVia_of_open mentions, viewStep]
    exact bind_pure _

end Signature

namespace Checker

/-! ## What flat declarations prescribe -/

theorem exists_formal_of_constraint {start : Checker} {owner : FeatureId}
    (found : start.features.get owner = .ok declared) {id : FormalId}
    (owns : start.features.Owns owner id) {constraint : Ty}
    (isConstraint : start.signature.constraint? id = some (some constraint)) :
    ∃ formal, declared.formals[id.index]? = some formal ∧
      start.types.tree formal.constraint = constraint := by
  have declaredEq := start.follows_signature.feature_eq owner declared found
  rw [← owns.1] at declaredEq
  simpa [Signature.constraint?, Signature.formal?, declaredEq, Feature.outline] using isConstraint

section

variable {start : Checker} (flat : start.features.Flat start.types.tree) {owner : FeatureId}

include flat

theorem signature_isPlain (id : FeatureId) : start.signature.IsPlain id := by
  intro outline isOutline
  obtain ⟨declared, found, rfl⟩ := signature_feature_eq_some_iff.mp isOutline
  simpa [Feature.isCompanion, Feature.outline] using flat.not_companion id declared found

theorem keepsFormal_of_owns {id : FormalId} (owns : start.features.Owns owner id) :
    start.signature.KeepsFormal id := by
  obtain ⟨_, declared, found, _⟩ := owns
  exact (signature_isPlain flat id.feature).keepsFormal
    (start.follows_signature.feature_eq _ declared found)

theorem constraint_proper {id : FormalId} (owns : start.features.Owns owner id) {constraint : Ty}
    (isConstraint : start.signature.constraint? id = some (some constraint)) :
    start.features.Proper (start.features.Owns owner) constraint := by
  have ⟨belongs, declared, found, _⟩ := owns
  rw [belongs] at found
  obtain ⟨formal, present, rfl⟩ := exists_formal_of_constraint found owns isConstraint
  exact flat.constraints_proper owner declared found formal (List.mem_of_getElem? present)

end

section

variable {start : Checker} (reachable : start.Reachable)
  (flat : start.features.Flat start.types.tree) {owner : FeatureId} {args : List Ty}
  (fits : start.features.Fits owner args.length) {formals : FormalId → Prop}
  (argsProper : ∀ arg ∈ args, start.features.Proper formals arg)

include reachable flat

theorem parent_proper (found : start.features.get owner = .ok declared) {parent : Parent}
    (member : parent ∈ declared.parents) :
    start.features.Proper (start.features.Owns owner) (start.types.tree parent.ty) := by
  obtain ⟨held, ancestor, outerId, ancestorFound, node, outermost⟩ :=
    (reachable.built.orderly.each owner declared found).parent_spelled parent member
  have coherent := reachable.sound.toWellFormed.types_canonical.toCoherent
  rw [TypeStore.tree_eq coherent held, node,
    outermost (flat.in_universe parent.ancestor ancestor ancestorFound), Node.toTy,
    FeatureTable.proper_applied_iff]
  refine ⟨?_, ?_, rfl, rfl⟩
  · simpa using flat.actuals_fit owner declared found parent member
  · simpa using flat.actuals_proper owner declared found parent member

include fits argsProper

theorem signature_substitute_own (proper : start.features.Proper (start.features.Owns owner) ty) :
    start.signature.substitute owner args ty = some (ty.replace (ownReplacement owner args)) := by
  have substitutable : start.features.Substitutable owner args ty :=
    ⟨fits, fun arg member => (argsProper arg member).toOver.ne_error,
      proper.toOver.mono fun _ owns _ => owns.2⟩
  rw [substitute_of_smooth
    (smooth_resolution reachable.sound.toWellFormed flat.regular substitutable)]
  apply congrArg some
  exact Ty.replace_congr proper.toOver fun id owns => flat.regular.resolution_own fits owns.1 owns.2

theorem signature_ancestorSeenFrom (found : start.features.get owner = .ok declared)
    {parent : Parent} (member : parent ∈ declared.parents) (isRef : Bool) :
    start.signature.ancestorSeenFrom (.applied owner args none isRef false)
        (start.types.tree parent.ty) =
      some ((start.types.tree parent.ty).replace (ownReplacement owner args)).asRef := by
  have proper := parent_proper reachable flat found member
  have seenProper := proper.replace_own fits argsProper
  rw [Signature.ancestorSeenFrom, Signature.substituteVia_applied,
    signature_substitute_own reachable flat fits argsProper proper]
  simp [Signature.replaceThis_of_idle _ seenProper.not_mentionsThis]

theorem signature_summands (found : start.features.get owner = .ok declared) (isRef : Bool) :
    start.signature.summands? (.applied owner args none isRef false) =
      some (declared.summands.map fun summands =>
        summands.map fun summand =>
          (start.types.tree summand).replace (ownReplacement owner args)) := by
  rw [Signature.summands?, start.follows_signature.feature_eq owner declared found]
  simp only [Option.bind_eq_bind, Option.bind_some, Feature.outline]
  cases isChoice : declared.summands with
  | none => rfl
  | some summands =>
    have proper : ∀ ty ∈ summands.map start.types.tree,
        start.features.Proper (start.features.Owns owner) ty := by
      simpa using flat.summands_proper owner declared found summands isChoice
    have idle : ∀ ty ∈ (summands.map start.types.tree).map
        (Ty.replace (ownReplacement owner args)),
        start.signature.replaceThis ty (.applied owner args none isRef false) = some ty := by
      intro ty member
      obtain ⟨declaredTy, original, rfl⟩ := List.mem_map.mp member
      apply Signature.replaceThis_of_idle
      exact ((proper declaredTy original).replace_own fits argsProper).not_mentionsThis
    simp only [Option.map_some]
    rw [substituteList_eq_map flat.regular found
      (reachable.sound.toWellFormed.features_wellFormed owner declared found) fits
      fun ty member => signature_substitute_own reachable flat fits argsProper (proper ty member)]
    simp only [Option.bind_some]
    rw [mapM_of_unchanged idle, List.map_map]
    rfl

end

/-! ## Replaced types -/

theorem replace_ownReplacement {feature : FeatureId} (proper : table.Proper (table.Owns feature) ty)
    {args : List Ty} (fits : table.Fits feature args.length) (replacement : FormalId → Ty) :
    (ty.replace (ownReplacement feature args)).replace replacement =
      ty.replace (ownReplacement feature (args.map (Ty.replace replacement))) := by
  rw [Ty.replace_replace]
  apply Ty.replace_congr proper.toOver
  rintro id ⟨belongs, declaresFormal⟩
  exact (FeatureTable.ownReplacement_map belongs declaresFormal fits replacement).symm

theorem not_isAbsorbing_of_proper (proper : table.Proper formals ty) : ty.isAbsorbing = false := by
  have holds := proper ty (Ty.self_mem_parts ty)
  cases ty with
  | error => exact holds.elim
  | undefined => exact holds.elim
  | _ => simp [Ty.isAbsorbing]

/-- The actuals can stand for the formals of `owner`: there is one for each formal, they are
proper, and they may be assigned to the constraints. -/
structure Instantiates (start : Checker) (owner : FeatureId) (actuals : List Ty) : Prop where
  fits : start.features.Fits owner actuals.length
  actuals_proper : ∀ actual ∈ actuals,
    start.features.Proper start.signature.KeepsFormal actual
  bounds_met : ∀ id constraint, start.features.Owns owner id →
    start.signature.constraint? id = some (some constraint) →
      start.signature.Takes (constraint.replace (ownReplacement owner actuals)).asRef
        (ownReplacement owner actuals id).asRef

namespace Instantiates

variable {start : Checker} {owner : FeatureId} {actuals : List Ty}
  (instantiates : start.Instantiates owner actuals)

include instantiates

theorem replace_proper (proper : start.features.Proper (start.features.Owns owner) ty) :
    start.features.Proper start.signature.KeepsFormal
      (ty.replace (ownReplacement owner actuals)) :=
  proper.replace_own instantiates.fits instantiates.actuals_proper

theorem replace_args_proper {args : List Ty}
    (proper : ∀ arg ∈ args, start.features.Proper (start.features.Owns owner) arg) :
    ∀ arg ∈ args.map (Ty.replace (ownReplacement owner actuals)),
      start.features.Proper start.signature.KeepsFormal arg :=
  List.forall_mem_map.mpr fun arg member => instantiates.replace_proper (proper arg member)

theorem dropThisFormals_replace (proper : start.features.Proper (start.features.Owns owner) ty) :
    start.signature.dropThisFormals (ty.replace (ownReplacement owner actuals)) =
      some (ty.replace (ownReplacement owner actuals)) :=
  Signature.dropThisFormals_of_proper (instantiates.replace_proper proper)

variable (reachable : start.Reachable) (flat : start.features.Flat start.types.tree)
  {feature : FeatureId} {args : List Ty} {isRef : Bool}
  (proper : start.features.Proper (start.features.Owns owner)
    (.applied feature args none isRef false))

include reachable flat proper

/-- The replacement takes ancestors to ancestors. -/
theorem above_replace {ancestor : Ty}
    (isAbove : start.signature.Above (.applied feature args none isRef false) ancestor) :
    start.features.Proper (start.features.Owns owner) ancestor ∧
      start.signature.Above
        ((Ty.applied feature args none isRef false).replace (ownReplacement owner actuals))
        (ancestor.replace (ownReplacement owner actuals)) := by
  obtain ⟨fits, argsProper, _, _⟩ := FeatureTable.proper_applied_iff.mp proper
  cases isAbove with
  | parent declared member seen =>
    obtain ⟨entry, found, rfl⟩ := signature_feature_eq_some_iff.mp declared
    obtain ⟨parent, isParent, rfl⟩ := List.mem_map.mp member
    rw [signature_ancestorSeenFrom reachable flat fits argsProper found isParent] at seen
    obtain rfl := Option.some.inj seen
    have parentProper := parent_proper reachable flat found isParent
    constructor
    · rw [FeatureTable.proper_asRef_iff]
      exact parentProper.replace_own fits argsProper
    · rw [Ty.replace_applied, Ty.replace_asRef, replace_ownReplacement parentProper fits]
      exact .parent declared member (signature_ancestorSeenFrom reachable flat
        (by simpa using fits) (instantiates.replace_args_proper argsProper) found isParent isRef)

theorem summand_replace {summands : List Ty} {summand : Ty}
    (isChoice : start.signature.summands? (.applied feature args none isRef false) =
      some (some summands)) (member : summand ∈ summands) :
    start.features.Proper (start.features.Owns owner) summand ∧ ∃ replaced,
      start.signature.summands?
        ((Ty.applied feature args none isRef false).replace (ownReplacement owner actuals)) =
          some (some replaced) ∧
      summand.replace (ownReplacement owner actuals) ∈ replaced := by
  obtain ⟨fits, argsProper, _, _⟩ := FeatureTable.proper_applied_iff.mp proper
  have ⟨declared, found, _⟩ := fits
  rw [signature_summands reachable flat fits argsProper found] at isChoice
  obtain ⟨entries, isDeclared, rfl⟩ := Option.map_eq_some_iff.mp (Option.some.inj isChoice)
  obtain ⟨entry, isEntry, rfl⟩ := List.mem_map.mp member
  have entryProper := flat.summands_proper feature declared found entries isDeclared entry isEntry
  have isReplacedChoice := signature_summands reachable flat
    (by simpa using fits) (instantiates.replace_args_proper argsProper) found isRef
  rw [isDeclared, Option.map_some] at isReplacedChoice
  rw [Ty.replace_applied, replace_ownReplacement entryProper fits]
  exact ⟨entryProper.replace_own fits argsProper, _, isReplacedChoice,
    List.mem_map_of_mem isEntry⟩

omit proper

theorem takes_replace_of_above {target actual ancestor : Ty}
    (targetProper : start.features.Proper (start.features.Owns owner) target)
    (actualProper : start.features.Proper (start.features.Owns owner) actual)
    (counts : target.ancestorsCount actual = true) (isAbove : start.signature.Above actual ancestor)
    (takes : start.features.Proper (start.features.Owns owner) ancestor →
      start.signature.Takes (target.replace (ownReplacement owner actuals))
        (ancestor.replace (ownReplacement owner actuals))) :
    start.signature.Takes (target.replace (ownReplacement owner actuals))
      (actual.replace (ownReplacement owner actuals)) := by
  have targetDrops := instantiates.dropThisFormals_replace targetProper
  have actualDrops := instantiates.dropThisFormals_replace actualProper
  cases isAbove with
  | @constraint id boxed constraint declared =>
    -- The actual in place of the formal may be assigned to the replaced constraint.
    have owns := FeatureTable.proper_formal_iff.mp actualProper
    have constraintProper := constraint_proper flat owns declared
    have upper := takes (FeatureTable.proper_asRef_iff.mpr constraintProper)
    have lower := instantiates.bounds_met id constraint owns declared
    obtain rfl : boxed = true := by
      simp only [Ty.ancestorsCount, Ty.isRef, Bool.and_eq_true] at counts
      exact counts.2
    rw [Ty.replace_asRef] at upper
    refine (reachable.apart_signature ?_).takes_trans upper lower ?_
    · intro _ _ outer _ around found
      exact flat.not_companion outer around found
    · apply not_isAbsorbing_of_proper
      exact FeatureTable.proper_asRef_iff.mpr (instantiates.replace_proper constraintProper)
  | @parent feature args outer isRef isThis outline parent ancestor declared member seen =>
    obtain ⟨_, _, rfl, rfl⟩ := FeatureTable.proper_applied_iff.mp actualProper
    obtain ⟨ancestorProper, isAbove'⟩ := instantiates.above_replace reachable flat actualProper
      (.parent declared member seen)
    refine .above targetDrops actualDrops ?_ isAbove' (takes ancestorProper)
    cases target with
    | applied => exact counts
    | _ => simp [Ty.ancestorsCount, Ty.isFormal, Ty.isRef] at counts

/-- Assignable types stay so when the formals of the owner give way to its actuals. -/
theorem takes_replace {target actual : Ty} (takes : start.signature.Takes target actual)
    (targetProper : start.features.Proper (start.features.Owns owner) target)
    (actualProper : start.features.Proper (start.features.Owns owner) actual) :
    start.signature.Takes (target.replace (ownReplacement owner actuals))
      (actual.replace (ownReplacement owner actuals)) := by
  have drops : ∀ {ty plain : Ty}, start.features.Proper (start.features.Owns owner) ty →
      start.signature.dropThisFormals ty = some plain → ty = plain := by
    intro ty plain proper dropped
    have kept := Signature.dropThisFormals_of_proper
      (proper.mono fun id => keepsFormal_of_owns flat)
    exact Option.some.inj (kept.symm.trans dropped)
  induction takes with
  | atOnce targetPlain actualPlain settled =>
    obtain rfl := drops targetProper targetPlain
    obtain rfl := drops actualProper actualPlain
    refine .atOnce (instantiates.dropThisFormals_replace targetProper)
      (instantiates.dropThisFormals_replace actualProper) ?_
    simp only [Ty.takesAtOnce, not_isAbsorbing_of_proper targetProper,
      not_isAbsorbing_of_proper actualProper, Bool.or_false, Bool.or_eq_true,
      decide_eq_true_eq] at settled
    rcases settled with rfl | rfl
    · simp [Ty.takesAtOnce]
    · simp [Ty.takesAtOnce, Ty.replace]
  | above targetPlain actualPlain counts isAbove _ ih =>
    obtain rfl := drops targetProper targetPlain
    obtain rfl := drops actualProper actualPlain
    exact instantiates.takes_replace_of_above reachable flat targetProper actualProper counts
      isAbove fun ancestorProper => ih targetProper ancestorProper
  | @summand target actual _ _ summand summands targetPlain actualPlain byValue isChoice member _
      ih =>
      obtain rfl := drops targetProper targetPlain
      obtain rfl := drops actualProper actualPlain
      have targetDrops := instantiates.dropThisFormals_replace targetProper
      have actualDrops := instantiates.dropThisFormals_replace actualProper
      cases target with
      | applied feature args outer isRef isThis =>
        obtain ⟨_, _, rfl, rfl⟩ := FeatureTable.proper_applied_iff.mp targetProper
        obtain ⟨summandProper, replaced, isReplacedChoice, replacedMember⟩ :=
          instantiates.summand_replace reachable flat targetProper isChoice member
        exact .summand targetDrops actualDrops byValue isReplacedChoice replacedMember
          (ih summandProper actualProper)
      | _ => cases isChoice

end Instantiates

/-! ## Answers of checkers -/

/-- Each actual may be assigned to the constraint of its formal for the actuals, both held
through references. -/
def MeetsConstraints (start : Checker) (owner : FeatureId) (actuals : List Ty) : Prop :=
  ∀ declared, start.features.get owner = .ok declared →
    ∀ (position : Nat) (formal : Formal) (actual : Ty),
      declared.formals[position]? = some formal → actuals[position]? = some actual → ∃ bound,
        start.Substitutes owner actuals (start.types.tree formal.constraint) bound ∧
          start.Decides bound.asRef actual.asRef true

theorem MeetsConstraints.instantiates {start : Checker} {owner : FeatureId} {actuals : List Ty}
    (meets : start.MeetsConstraints owner actuals) (reachable : start.Reachable)
    (faithful : start.Faithful) (flat : start.features.Flat start.types.tree)
    (fits : start.features.Fits owner actuals.length)
    (actualsProper : ∀ actual ∈ actuals, start.features.Proper formals actual) :
    start.Instantiates owner actuals := by
  have ⟨declared, found, lengthEq⟩ := fits
  refine ⟨fits, ?_, ?_⟩
  · intro actual member
    obtain ⟨position, present⟩ := List.mem_iff_getElem?.mp member
    obtain ⟨bound, _⟩ := List.getElem?_eq_some_iff.mp present
    have formalPresent := List.getElem?_eq_getElem (lengthEq ▸ bound)
    obtain ⟨_, _, decides⟩ := meets declared found position _ actual formalPresent present
    -- The check drops formals in the actual, so all of them can be dropped.
    obtain ⟨_, _, _, drops⟩ := ((decides.iff_takes faithful).mp rfl).plain
    have proper := FeatureTable.proper_asRef_iff.mpr (actualsProper actual member)
    exact FeatureTable.proper_asRef_iff.mp
      (Signature.proper_of_dropped (signature_isPlain flat) proper drops)
  · intro id constraint owns isConstraint
    obtain ⟨actual, present, replaced⟩ := FeatureTable.exists_actual fits owns.1 owns.2
    obtain ⟨formal, formalPresent, rfl⟩ := exists_formal_of_constraint found owns isConstraint
    obtain ⟨bound, substitutes, decides⟩ :=
      meets declared found id.index formal actual formalPresent present
    have boundEq := substitutes.prescribed faithful
    rw [signature_substitute_own reachable flat fits actualsProper
      (constraint_proper flat owns isConstraint)] at boundEq
    rw [replaced, Option.some.inj boundEq]
    exact (decides.iff_takes faithful).mp rfl

/-- In a flat table, what may be assigned where the formals of `owner` stand may be assigned
after they were replaced by actuals that meet their constraints.  All questions are put to
the checker at any time after its memo tables were empty, while its features stay as they
are. -/
theorem isAssignable_substitute
    (start : Checker) (reachable : start.Reachable)
    (byOwnerEmpty : start.byOwner.entries.isEmpty = true)
    (viaTypeEmpty : start.viaType.entries.isEmpty = true)
    (flat : start.features.Flat start.types.tree) (owner : FeatureId) (actuals : List Ty)
    (fits : start.features.Fits owner actuals.length)
    (actualsProper : ∀ actual ∈ actuals, start.features.Proper (fun _ => True) actual)
    (meets : start.MeetsConstraints owner actuals) (target actual : Ty)
    (targetProper : start.features.Proper (start.features.Owns owner) target)
    (actualProper : start.features.Proper (start.features.Owns owner) actual)
    (takes : start.Decides target actual true) {target' actual' : Ty}
    (targetBecomes : start.Substitutes owner actuals target target')
    (actualBecomes : start.Substitutes owner actuals actual actual') {answer : Bool}
    (completes : start.Decides target' actual' answer) : answer = true := by
  have faithful := reachable.sound.toWellFormed.faithful_of_empty byOwnerEmpty viaTypeEmpty
  have replaced : ∀ {ty ty' : Ty}, start.features.Proper (start.features.Owns owner) ty →
      start.Substitutes owner actuals ty ty' → ty' = ty.replace (ownReplacement owner actuals) := by
    intro ty ty' proper becomes
    have prescribed := signature_substitute_own reachable flat fits actualsProper proper
    exact Option.some.inj ((becomes.prescribed faithful).symm.trans prescribed)
  have instantiates := meets.instantiates reachable faithful flat fits actualsProper
  rw [completes.iff_takes faithful, replaced targetProper targetBecomes,
    replaced actualProper actualBecomes]
  exact instantiates.takes_replace reachable flat ((takes.iff_takes faithful).mp rfl) targetProper
    actualProper

/-- Sequences, ranges as heirs of sequences, a choice that takes sequences, and a feature
with two formals, the second of which is a sequence of the first. -/
def sliceOperations : List Operation :=
  [.declare (.feature "any" none true), .construct (.instantiate ⟨1⟩ []),
    .declare (.feature "sequence" none true), .declare (.formal ⟨2⟩ "T" ⟨3⟩ false {}),
    .declare (.parent ⟨2⟩ ⟨1⟩ []),
    .declare (.feature "range" none true), .declare (.formal ⟨3⟩ "U" ⟨3⟩ false {}),
    .declare (.parent ⟨3⟩ ⟨2⟩ [⟨5⟩]),
    .declare (.feature "slice" none true), .declare (.formal ⟨4⟩ "V" ⟨3⟩ false {}),
    .construct (.instantiate ⟨2⟩ [⟨7⟩]), .declare (.formal ⟨4⟩ "W" ⟨8⟩ false {}),
    .declare (.feature "option" none false), .declare (.formal ⟨5⟩ "X" ⟨3⟩ false {}),
    .construct (.instantiate ⟨2⟩ [⟨10⟩]), .declare (.choice ⟨5⟩ [⟨11⟩]),
    .construct (.asRef ⟨9⟩), .construct (.instantiate ⟨5⟩ [⟨7⟩]),
    .construct (.instantiate ⟨3⟩ [⟨3⟩]), .construct (.instantiate ⟨2⟩ [⟨3⟩]),
    .construct (.instantiate ⟨5⟩ [⟨3⟩])]

/-- The choice takes the second formal through the constraint of it, and the replaced choice
takes a range in its place through the parent of the range. -/
theorem isAssignable_substitute_slice :
    let start := afterAll sliceOperations {}
    let actuals := [start.types.tree ⟨3⟩, start.types.tree ⟨14⟩]
    start.features.Flat start.types.tree ∧ start.MeetsConstraints ⟨4⟩ actuals ∧
      start.Decides (start.types.tree ⟨13⟩) (start.types.tree ⟨12⟩) true ∧
      start.Substitutes ⟨4⟩ actuals (start.types.tree ⟨13⟩) (start.types.tree ⟨16⟩) ∧
      start.Substitutes ⟨4⟩ actuals (start.types.tree ⟨12⟩) (start.types.tree ⟨14⟩) ∧
      ∃ answer, start.Decides (start.types.tree ⟨16⟩) (start.types.tree ⟨14⟩) answer ∧
        answer = true := by
  intro start actuals
  have reachable : start.Reachable := (Reachable.initial {} {}).steps (by decide +kernel)
  have flat : start.features.Flat start.types.tree := by
    refine ⟨?_, FeatureTable.acyclic_of_index_lt ?_, ?_, ?_, ?_, ?_, ?_, ?_⟩
    all_goals exact FeatureTable.forall_declared (by decide +kernel)
  have constraints : ∀ id declared, start.features.get id = .ok declared → id = ⟨4⟩ →
      declared.formals.map Formal.constraint = [⟨3⟩, ⟨8⟩] :=
    FeatureTable.forall_declared (by decide +kernel)
  have anyRef : (start.types.tree ⟨3⟩).asRef = start.types.tree ⟨3⟩ := by decide +kernel
  have rangeRef : (start.types.tree ⟨14⟩).asRef = start.types.tree ⟨14⟩ := by decide +kernel
  have sequenceRef : (start.types.tree ⟨15⟩).asRef = start.types.tree ⟨15⟩ := by decide +kernel
  have meets : start.MeetsConstraints ⟨4⟩ actuals := by
    intro declared found position formal actual formalPresent present
    have constraintPresent : [⟨3⟩, ⟨8⟩][position]? = some formal.constraint := by
      rw [← constraints ⟨4⟩ declared found rfl, List.getElem?_map, formalPresent, Option.map_some]
    rcases position with _ | _ | position
    · obtain rfl := Option.some.inj present
      rw [← Option.some.inj constraintPresent]
      refine ⟨start.types.tree ⟨3⟩,
        @substitutes_of_run start ⟨4⟩ [⟨3⟩, ⟨14⟩] ⟨3⟩ _ (by decide +kernel) (by decide +kernel), ?_⟩
      rw [anyRef]
      exact decides_of_run (by decide +kernel) (by decide +kernel)
    · obtain rfl := Option.some.inj present
      rw [← Option.some.inj constraintPresent]
      refine ⟨start.types.tree ⟨15⟩,
        @substitutes_of_run start ⟨4⟩ [⟨3⟩, ⟨14⟩] ⟨8⟩ _ (by decide +kernel) (by decide +kernel), ?_⟩
      rw [sequenceRef, rangeRef]
      exact decides_of_run (by decide +kernel) (by decide +kernel)
    · cases present
  have takes : start.Decides (start.types.tree ⟨13⟩) (start.types.tree ⟨12⟩) true :=
    decides_of_run (by decide +kernel) (by decide +kernel)
  have targetBecomes :
      start.Substitutes ⟨4⟩ actuals (start.types.tree ⟨13⟩) (start.types.tree ⟨16⟩) :=
    @substitutes_of_run start ⟨4⟩ [⟨3⟩, ⟨14⟩] ⟨13⟩ _ (by decide +kernel) (by decide +kernel)
  have actualBecomes :
      start.Substitutes ⟨4⟩ actuals (start.types.tree ⟨12⟩) (start.types.tree ⟨14⟩) :=
    @substitutes_of_run start ⟨4⟩ [⟨3⟩, ⟨14⟩] ⟨12⟩ _ (by decide +kernel) (by decide +kernel)
  have completes : start.Decides (start.types.tree ⟨16⟩) (start.types.tree ⟨14⟩) true :=
    decides_of_run (by decide +kernel) (by decide +kernel)
  refine ⟨flat, meets, takes, targetBecomes, actualBecomes, true, completes, ?_⟩
  exact isAssignable_substitute start reachable (by decide +kernel) (by decide +kernel) flat ⟨4⟩
    actuals (by decide +kernel) (by decide +kernel) meets _ _ (by decide +kernel)
    (by decide +kernel) takes targetBecomes actualBecomes completes

end Checker

end FeatureTypes

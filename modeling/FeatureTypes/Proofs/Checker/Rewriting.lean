import FeatureTypes.Proofs.Meaning.Formals
import FeatureTypes.Proofs.Substitution.Boxing

/-!
# Rewriting formals and references

The operations that replace formals can be applied before or after a type is boxed.  For two
of them this makes no difference; for the third it does where a formal for the type at hand
stands for a value.
-/

namespace FeatureTypes.Checker

variable {result : TypeId}

variable {start checker : Checker}

/-! ## Histories of sound checkers -/

theorem Continues.sound (sound : start.Sound) (continues : start.Continues checker) :
    checker.Sound ∧ start.types.Extends checker.types ∧ checker.features = start.features := by
  induction continues with
  | refl => exact ⟨sound, .refl _, rfl⟩
  | @step before _ operation held completes unchanged ih =>
    obtain ⟨earlier, extension, featuresEq⟩ := ih
    obtain ⟨later, extension'⟩ := Lockstep.after_sound earlier operation held completes
    exact ⟨later, extension.trans extension', unchanged.trans featuresEq⟩

/-! ## Runs of rewriting operations -/

/-- The operation comes to a result. -/
def HasResult {α : Type} (checker : Checker) (operation : CheckM α) : Prop :=
  ∃ result after, operation.run checker = .ok result after

namespace Rewrites

variable {rewrite : TypeId → CheckM TypeId} {meaning : Ty → Option Ty}
  (rewrites : Rewrites start rewrite meaning)

include rewrites

theorem hasResult_iff (wellFormed : checker.WellFormed) (follows : checker.Follows start.signature)
    (featuresEq : checker.features = start.features) {id : TypeId} {ty : Ty}
    (denotes : checker.types.Denotes id ty) :
    checker.HasResult (rewrite id) ↔ meaning ty ≠ none := by
  refine ⟨?_, rewrites.exists_run wellFormed follows denotes featuresEq⟩
  rintro ⟨result, after, run⟩
  obtain ⟨value, valueEq, _⟩ := rewrites.exists_of_run wellFormed follows denotes run
  simp [valueEq]

theorem sound_of_run (sound : checker.Sound) {id : TypeId} (held : checker.types.Holds id)
    {after : Checker} (run : (rewrite id).run checker = .ok result after) : after.Sound := by
  have coupled := rewrites.couples Lockstep.alike_growing.stable (.diagonal sound) held
  obtain ⟨next, rfl, _⟩ := Lockstep.Outcome.of_ok coupled run
  exact next.sound

end Rewrites

/-! ## Two rewriting operations -/

section

variable {first second : TypeId → CheckM TypeId} {meaning meaning' : Ty → Option Ty}
  (firstRewrites : Rewrites start first meaning) (secondRewrites : Rewrites start second meaning')
  (sound : start.Sound) {id : TypeId} (held : start.types.Holds id)

include firstRewrites secondRewrites sound held

theorem Rewrites.exists_of_givesInTurn {result' : TypeId}
    (gives : start.GivesInTurn (first id) result (second id) result') :
    ∃ value value', meaning (start.types.tree id) = some value ∧
      meaning' (start.types.tree id) = some value' ∧ (result = result' ↔ value = value') := by
  obtain ⟨middle, before, after, run, continues, run'⟩ := gives
  have coherent := sound.types_canonical.toCoherent
  have denotes : start.types.Denotes id (start.types.tree id) := ⟨held, rfl⟩
  obtain ⟨value, valueEq, resultDenotes, extension, featuresEq, _⟩ :=
    firstRewrites.exists_of_run sound.toWellFormed start.follows_signature denotes run
  have middleSound := firstRewrites.sound_of_run sound held run
  obtain ⟨beforeSound, extension', featuresEq'⟩ := continues.sound middleSound
  have coherent' := beforeSound.types_canonical.toCoherent
  have follows := start.follows_signature.of_extends sound.toWellFormed coherent'
    (extension.trans extension') (featuresEq'.trans featuresEq)
  have denotes' := denotes.of_extends coherent coherent' (extension.trans extension')
  obtain ⟨value', valueEq', resultDenotes', extension'', _⟩ :=
    secondRewrites.exists_of_run beforeSound.toWellFormed follows denotes' run'
  have afterSound := secondRewrites.sound_of_run beforeSound denotes'.1 run'
  have coherent'' := afterSound.types_canonical.toCoherent
  refine ⟨value, value', valueEq, valueEq', ?_⟩
  have resultDenotes := resultDenotes.of_extends middleSound.types_canonical.toCoherent coherent''
    (extension'.trans extension'')
  exact resultDenotes.inj resultDenotes' coherent''

theorem Rewrites.exists_of_givesBoth {result' : TypeId}
    (gives : start.GivesBoth (first id) result (second id) result') :
    ∃ value value', meaning (start.types.tree id) = some value ∧
      meaning' (start.types.tree id) = some value' ∧ (result = result' ↔ value = value') := by
  rcases gives with inTurn | inTurn
  · exact firstRewrites.exists_of_givesInTurn secondRewrites sound held inTurn
  · obtain ⟨value', value, valueEq', valueEq, same_iff⟩ :=
      secondRewrites.exists_of_givesInTurn firstRewrites sound held inTurn
    exact ⟨value, value', valueEq, valueEq', eq_comm.trans (same_iff.trans eq_comm)⟩

end

/-- Each of the operations comes to a result if the other one does, and then the results are the
same. -/
structure Agree (checker : Checker) (first second : CheckM TypeId) : Prop where
  hasResult_iff : checker.HasResult first ↔ checker.HasResult second
  result_eq : ∀ {result result' : TypeId}, checker.GivesBoth first result second result' →
    result = result'

/-! ## Boxing before and after -/

section

variable {rewrite : TypeId → CheckM TypeId} {meaning : Ty → Option Ty}
  (rewrites : Rewrites start rewrite meaning)

include rewrites

theorem Rewrites.after_asRef :
    Rewrites start (fun id => do rewrite (← Checker.asRef id)) fun ty => meaning ty.asRef :=
  (Rewrites.asRef start).comp rewrites

theorem Rewrites.before_asRef :
    Rewrites start (fun id => do Checker.asRef (← rewrite id)) fun ty =>
      (meaning ty).map Ty.asRef := by
  simpa only [Option.map_eq_bind, Function.comp_def] using rewrites.comp (Rewrites.asRef start)

variable (sound : start.Sound) {id : TypeId} (held : start.types.Holds id)

include sound held

theorem Rewrites.hasResult_asRef_iff
    (alike : meaning (start.types.tree id).asRef = none ↔ meaning (start.types.tree id) = none) :
    start.HasResult (do rewrite (← Checker.asRef id)) ↔
      start.HasResult (do Checker.asRef (← rewrite id)) := by
  have denotes : start.types.Denotes id (start.types.tree id) := ⟨held, rfl⟩
  rw [rewrites.after_asRef.hasResult_iff sound.toWellFormed start.follows_signature rfl denotes,
    rewrites.before_asRef.hasResult_iff sound.toWellFormed start.follows_signature rfl denotes]
  simp only [ne_eq, Option.map_eq_none_iff, alike]

theorem Rewrites.agree_asRef
    (boxes : meaning (start.types.tree id).asRef = (meaning (start.types.tree id)).map Ty.asRef) :
    start.Agree (do rewrite (← Checker.asRef id)) (do Checker.asRef (← rewrite id)) where
  hasResult_iff := rewrites.hasResult_asRef_iff sound held (by simp [boxes])
  result_eq gives := by
    obtain ⟨value, value', valueEq, valueEq', same_iff⟩ :=
      rewrites.after_asRef.exists_of_givesBoth rewrites.before_asRef sound held gives
    rw [same_iff]
    exact Option.some.inj (valueEq.symm.trans (boxes.trans valueEq'))

end

/-- The type is the formal of a companion for the type at hand, which is a value. -/
def StandsForValue (checker : Checker) (ty : TypeId) : Prop :=
  ∃ companion boxed origin declared, checker.types.tree ty = .formal ⟨companion, 0⟩ boxed ∧
    checker.features.originOf companion = some origin ∧
      checker.features.get origin = .ok declared ∧ declared.isRef = false

theorem standsForValue_iff {ty : TypeId} {id : FormalId} {boxed : Bool}
    (isFormal : checker.types.tree ty = .formal id boxed) :
    checker.StandsForValue ty ↔ checker.signature.StandsForValue id := by
  constructor
  · rintro ⟨companion, _, origin, declared, treeEq, isOrigin, found, isValue⟩
    rw [isFormal] at treeEq
    obtain ⟨rfl, rfl⟩ := Ty.formal.inj treeEq
    obtain ⟨feature, foundCompanion, isOrigin⟩ := FeatureTable.exists_of_originOf isOrigin
    exact ⟨rfl, _, origin, _, signature_feature_eq_some_iff.mpr ⟨feature, foundCompanion, rfl⟩,
      isOrigin, signature_feature_eq_some_iff.mpr ⟨declared, found, rfl⟩, isValue⟩
  · rintro ⟨first, _, origin, _, declaredCompanion, isOrigin, declaredOrigin, isValue⟩
    obtain ⟨feature, foundCompanion, rfl⟩ := signature_feature_eq_some_iff.mp declaredCompanion
    obtain ⟨declared, found, rfl⟩ := signature_feature_eq_some_iff.mp declaredOrigin
    refine ⟨id.feature, boxed, origin, declared, ?_,
      (FeatureTable.originOf_eq foundCompanion).trans isOrigin, found, isValue⟩
    rw [isFormal, ← first]

/-- A type may be boxed before or after its formals are replaced.  This is so for the formal of
one companion, for the formals of a feature and of those around it, and for the formals for the
type at hand, of which only one that stands for a value itself tells the two orders apart. -/
theorem rewriting_asRef
    (checker : Checker) (sound : checker.Sound) (ty : TypeId) (held : checker.types.Holds ty) :
    (∀ companion replacement,
      checker.Agree (do replaceThisFormal companion replacement (← asRef ty))
        (do asRef (← replaceThisFormal companion replacement ty))) ∧
    (∀ id, checker.Agree (do liftFormals id (← asRef ty)) (do asRef (← liftFormals id ty))) ∧
    (checker.HasResult (do dropThisFormals (← asRef ty)) ↔
      checker.HasResult (do asRef (← dropThisFormals ty))) ∧
    ∀ boxedFirst boxedLast, checker.GivesBoth (do dropThisFormals (← asRef ty)) boxedFirst
      (do asRef (← dropThisFormals ty)) boxedLast →
        (boxedFirst = boxedLast ↔ ¬checker.StandsForValue ty) := by
  have drops := rewrites_dropThisFormals checker
  refine ⟨?_, ?_, ?_, ?_⟩
  · intro companion replacement
    refine (rewrites_replaceThisFormal checker companion replacement).agree_asRef sound held ?_
    exact Ty.mapFormals_asRef fun _ _ _ => rfl
  · intro id
    refine (rewrites_liftFormalsWithin checker _ id).agree_asRef sound held ?_
    exact checker.signature.liftFormalsWithin_asRef _ id _
  · exact drops.hasResult_asRef_iff sound held
      (checker.signature.dropThisFormals_asRef_eq_none_iff _)
  · intro boxedFirst boxedLast gives
    obtain ⟨value, value', valueEq, valueEq', same_iff⟩ :=
      drops.after_asRef.exists_of_givesBoth drops.before_asRef sound held gives
    obtain ⟨plain, plainEq, rfl⟩ := Option.map_eq_some_iff.mp valueEq'
    rw [same_iff]
    cases treeEq : checker.types.tree ty with
    | formal id boxed =>
      rw [treeEq, Signature.dropThisFormals_formal] at plainEq
      rw [treeEq, Ty.asRef, Signature.dropThisFormals_formal] at valueEq
      rw [standsForValue_iff treeEq]
      exact checker.signature.dropThisFormal_asRef_iff valueEq plainEq
    | _ =>
      have boxes : checker.signature.dropThisFormals (checker.types.tree ty).asRef =
          (checker.signature.dropThisFormals (checker.types.tree ty)).map Ty.asRef := by
        simp only [Signature.dropThisFormals_eq_mapFormals]
        exact Ty.mapFormals_asRef (by simp [treeEq])
      refine iff_of_true ?_ ?_
      · exact Option.some.inj (valueEq.symm.trans (boxes.trans valueEq'))
      · rintro ⟨_, _, _, _, isFormal, _⟩
        simp [treeEq] at isFormal

/-- A value, its companion, the formal of the companion for the type at hand, and a type with
this formal as an argument, once boxed and once not. -/
def pointOperations : List Operation :=
  [.declare (.feature "any" none true), .declare (.feature "Type" none true),
    .declare (.typeRoot ⟨2⟩), .declare (.feature "point" none false), .companion ⟨3⟩,
    .construct (.formal ⟨⟨4⟩, 0⟩), .construct (.asRef ⟨5⟩),
    .construct (.applied ⟨1⟩ [⟨5⟩, ⟨6⟩] none false)]

/-- The formal for the point tells the two orders apart, but not where it is an argument. -/
theorem rewriting_asRef_point :
    let checker := afterAll pointOperations {}
    checker.types.tree ⟨7⟩ = .applied ⟨1⟩ [.formal ⟨⟨4⟩, 0⟩ false, .formal ⟨⟨4⟩, 0⟩ true] none
        false false ∧
      checker.Agree (do replaceThisFormal ⟨4⟩ ⟨⟨1⟩, 2⟩ (← asRef ⟨7⟩))
        (do asRef (← replaceThisFormal ⟨4⟩ ⟨⟨1⟩, 2⟩ ⟨7⟩)) ∧
      checker.Agree (do liftFormals ⟨4⟩ (← asRef ⟨7⟩)) (do asRef (← liftFormals ⟨4⟩ ⟨7⟩)) ∧
      (∃ boxedFirst boxedLast, checker.GivesBoth (do dropThisFormals (← asRef ⟨7⟩)) boxedFirst
        (do asRef (← dropThisFormals ⟨7⟩)) boxedLast ∧ boxedFirst = boxedLast) ∧
      ∃ boxedFirst boxedLast, checker.GivesBoth (do dropThisFormals (← asRef ⟨5⟩)) boxedFirst
        (do asRef (← dropThisFormals ⟨5⟩)) boxedLast ∧ boxedFirst ≠ boxedLast := by
  intro checker
  have reachable : checker.Reachable := (Reachable.initial {} {}).steps (by decide +kernel)
  have treeEq : checker.types.tree ⟨7⟩ =
      .applied ⟨1⟩ [.formal ⟨⟨4⟩, 0⟩ false, .formal ⟨⟨4⟩, 0⟩ true] none false false := by
    decide +kernel
  obtain ⟨replaces, lifts, _, drops⟩ :=
    rewriting_asRef checker reachable.sound ⟨7⟩ (by decide +kernel)
  obtain ⟨_, _, _, dropsFormal⟩ := rewriting_asRef checker reachable.sound ⟨5⟩ (by decide +kernel)
  refine ⟨treeEq, replaces ⟨4⟩ ⟨⟨1⟩, 2⟩, lifts ⟨4⟩, ?_, ?_⟩
  · obtain ⟨boxedFirst, boxedLast, gives, _⟩ : ∃ boxedFirst boxedLast,
        checker.GivesInTurn (do dropThisFormals (← asRef ⟨7⟩)) boxedFirst
          (do asRef (← dropThisFormals ⟨7⟩)) boxedLast ∧ true = true :=
      exists_givesInTurn_of_run (fun _ _ => true) (by decide +kernel)
    refine ⟨boxedFirst, boxedLast, .inl gives, (drops boxedFirst boxedLast (.inl gives)).mpr ?_⟩
    rintro ⟨_, _, _, _, isFormal, _⟩
    simp [treeEq] at isFormal
  · obtain ⟨boxedFirst, boxedLast, gives, _⟩ : ∃ boxedFirst boxedLast,
        checker.GivesInTurn (do dropThisFormals (← asRef ⟨5⟩)) boxedFirst
          (do asRef (← dropThisFormals ⟨5⟩)) boxedLast ∧ true = true :=
      exists_givesInTurn_of_run (fun _ _ => true) (by decide +kernel)
    obtain ⟨declared, found, isValue⟩ : ∃ declared, checker.features.get ⟨3⟩ = .ok declared ∧
        declared.isRef = false := ⟨_, rfl, rfl⟩
    refine ⟨boxedFirst, boxedLast, .inl gives, fun same => ?_⟩
    exact (dropsFormal boxedFirst boxedLast (.inl gives)).mp same ⟨⟨4⟩, false, ⟨3⟩, declared,
      by decide +kernel, by decide +kernel, found, isValue⟩

/-- Boxed first, the formal for the point becomes a value, and boxed last it becomes a
reference. -/
theorem dropThisFormals_asRef_value :
    let checker := afterAll pointOperations {}
    checker.types.tree ⟨5⟩ = .formal ⟨⟨4⟩, 0⟩ false ∧
      ∃ boxedFirst boxedLast, checker.GivesBoth (do dropThisFormals (← asRef ⟨5⟩)) boxedFirst
        (do asRef (← dropThisFormals ⟨5⟩)) boxedLast ∧ boxedFirst ≠ boxedLast := by
  intro checker
  obtain ⟨boxedFirst, boxedLast, gives, different⟩ : ∃ boxedFirst boxedLast,
      checker.GivesInTurn (do dropThisFormals (← asRef ⟨5⟩)) boxedFirst
        (do asRef (← dropThisFormals ⟨5⟩)) boxedLast ∧
          decide (boxedFirst ≠ boxedLast) = true :=
    exists_givesInTurn_of_run (fun boxedFirst boxedLast => decide (boxedFirst ≠ boxedLast))
      (by decide +kernel)
  exact ⟨by decide +kernel, boxedFirst, boxedLast, .inl gives, of_decide_eq_true different⟩

end FeatureTypes.Checker

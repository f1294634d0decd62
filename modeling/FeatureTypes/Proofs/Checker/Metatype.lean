import FeatureTypes.Proofs.Checker.Creation
import FeatureTypes.Proofs.Feature.Built
import FeatureTypes.Proofs.Meaning.Smooth
import FeatureTypes.Proofs.Store.Whole

/-!
# Taking the metatype
-/

namespace FeatureTypes

/-! ## Metatypes as trees -/

namespace FeatureTable

mutual

/-- The metatype of a type, where companions have been created. -/
def metatype (table : FeatureTable) : Ty → Ty
  | .applied feature args outer isRef isThis =>
    match table.companionOf feature with
    | some companion =>
      .applied companion (.applied feature args outer isRef isThis :: args)
        (table.metatypeOption outer) false false
    | none => .applied feature args outer isRef isThis
  | .formal id boxed => .formal id boxed
  | .error => .error
  | .void => .void
  | .undefined => .undefined

def metatypeOption (table : FeatureTable) : Option Ty → Option Ty
  | none => none
  | some ty => some (table.metatype ty)

end

variable {table : FeatureTable}

theorem metatype_of_companion {feature companion : FeatureId}
    (isCompanion : table.companionOf feature = some companion) (args : List Ty) (outer : Option Ty)
    (isRef isThis : Bool) :
    table.metatype (.applied feature args outer isRef isThis) =
      .applied companion (.applied feature args outer isRef isThis :: args)
        (outer.map table.metatype) false false := by
  rw [metatype, isCompanion]
  cases outer <;> rfl

theorem metatype_of_missing {feature : FeatureId} (missing : table.companionOf feature = none)
    (args : List Ty) (outer : Option Ty) (isRef isThis : Bool) :
    table.metatype (.applied feature args outer isRef isThis) =
      .applied feature args outer isRef isThis := by
  rw [metatype, missing]

theorem whole_metatype (table : FeatureTable) {ty : Ty} (whole : ty.Whole) :
    (table.metatype ty).Whole := by
  induction ty with
  | applied feature args outer isRef isThis _ outerWhole =>
    cases isCompanion : table.companionOf feature with
    | none => rwa [metatype_of_missing isCompanion]
    | some companion =>
      obtain ⟨wholeArgs, wholeOuter⟩ := Ty.whole_applied_iff.mp whole
      rw [metatype_of_companion isCompanion, Ty.whole_applied_iff, List.forall_mem_cons]
      refine ⟨⟨whole, wholeArgs⟩, fun result isResult => ?_⟩
      obtain ⟨around, present, rfl⟩ := Option.map_eq_some_iff.mp isResult
      exact outerWhole around present (wholeOuter around present)
  | _ => exact whole

theorem mentionsFormal_of_metatype {ty : Ty} (closed : (table.metatype ty).mentionsFormal = false) :
    ty.mentionsFormal = false := by
  cases ty with
  | applied feature args outer isRef isThis =>
    cases isCompanion : table.companionOf feature with
    | none => rwa [metatype_of_missing isCompanion] at closed
    | some companion =>
      rw [metatype_of_companion isCompanion, Ty.mentionsFormal, List.any_eq_false] at closed
      rw [Ty.mentionsFormal, List.any_eq_false]
      exact fun part occurs =>
        closed part (Ty.mem_parts_of_mem_args (List.mem_cons_self ..) occurs)
  | _ => exact closed

/-- The feature and those around have companions, up to the universe. -/
inductive HasMetatype (table : FeatureTable) : Ty → Prop
  | outermost (args : List Ty) (outer : Option Ty) (isRef isThis : Bool) :
      HasMetatype table (.applied .universe args outer isRef isThis)
  | companion {feature companion : FeatureId} {outer : Option Ty}
      (isCompanion : table.companionOf feature = some companion) (args : List Ty)
      (around : ∀ ty, outer = some ty → HasMetatype table ty) (isRef isThis : Bool) :
      HasMetatype table (.applied feature args outer isRef isThis)

theorem Grows.companionOf_eq {larger : FeatureTable} (growth : table.Grows larger)
    (lawful : table.Lawful) (lawful' : larger.Lawful) {id companion : FeatureId}
    (isCompanion : table.companionOf id = some companion) :
    larger.companionOf id = some companion := by
  rw [lawful.companion_iff] at isCompanion
  obtain ⟨mirror, found, isOrigin⟩ := exists_of_originOf isCompanion
  obtain ⟨_, foundLarger⟩ := growth.get_eq companion mirror found
  rw [lawful'.companion_iff, originOf_eq foundLarger]
  exact isOrigin

end FeatureTable

namespace Checker

/-! ## Taking it for the first time -/

section

variable {start checker : Checker} (growing : start.GrowsLawfully checker)

include growing

theorem GrowsLawfully.ensures_companion {id : FeatureId} {declared : Feature}
    (found : start.features.get id = .ok declared) (isElsewhere : ¬ declared.isUniverse = true)
    (plain : declared.isCompanion = false) :
    Ensures checker (companion? id) fun after answer => ∃ companion, answer = some companion ∧
      start.GrowsLawfully after ∧ checker.Grows after ∧
        after.features.companionOf id = some companion := by
  intro answer after run
  obtain ⟨growing', growth⟩ := growing.ensures_companionWithin _ id answer after run
  have provided := Checker.ensures_companionWithin growing.lawful _ id answer after run
  obtain ⟨_, foundAfter⟩ := growing'.grows.features_grow.get_eq id declared found
  cases answer with
  | some companion => exact ⟨companion, rfl, growing', growth, provided.companion_eq⟩
  | none =>
    rcases provided.missing growing.lawful rfl with isUniverse | hasOrigin
    · have isNone := (growing'.lawful.outer_eq_none_iff id _ foundAfter).mpr isUniverse
      exact absurd (Option.isNone_iff_eq_none.mpr isNone) isElsewhere
    · rw [FeatureTable.originOf_eq foundAfter] at hasOrigin
      rw [Feature.isCompanion, Option.isSome_eq_false_iff, Option.isNone_iff_eq_none] at plain
      exact absurd plain hasOrigin

theorem GrowsLawfully.ensures_applied (feature : FeatureId) {argIds : List TypeId} {args : List Ty}
    (argsDenote : List.Forall₂ checker.types.Denotes argIds args) {outerId : Option TypeId}
    {outer : Option Ty} (outerDenotes : Option.Rel checker.types.Denotes outerId outer)
    (isRef : Bool) :
    Ensures checker (onTypes (·.applied feature argIds outerId isRef)) fun after result =>
      start.GrowsLawfully after ∧ checker.Grows after ∧ after.features = checker.features ∧
        after.types.Denotes result (.applied feature args outer isRef false) := by
  intro result after run
  obtain ⟨rfl, rfl⟩ := EStateM.Result.ok.inj ((run_onTypes checker _).symm.trans run)
  have made := TypeStore.makes_applied growing.wellFormed.types_canonical feature argsDenote
    outerDenotes isRef false
  have growth := (Proceeds.ofTypes checker made.extension).toGrows
  exact ⟨⟨growing.grows.trans growth,
    ⟨made.canonical, growing.wellFormed.features_wellFormed.of_extends made.extension⟩,
      growing.lawful⟩, growth, rfl, made.denotes⟩

/-- Whichever companions are created, the result is the metatype of the tree. -/
theorem GrowsLawfully.ensures_metatypeWithin (depth : Nat) {id : TypeId} {ty : Ty}
    (denotes : checker.types.Denotes id ty)
    (chain : ty.Chain fun feature _ => start.features.DeclaresPlain feature) :
    Ensures checker (metatypeWithin depth id) fun after result =>
      start.GrowsLawfully after ∧ checker.Grows after ∧ after.features.HasMetatype ty ∧
        after.types.Denotes result (after.features.metatype ty) := by
  induction depth generalizing checker id ty with
  | zero => exact .fail .depthExceeded _
  | succ depth ih =>
    cases chain with
    | @applied feature args outer isRef isThis plain around =>
      have canonical := growing.wellFormed.types_canonical
      obtain ⟨argIds, outerId, node, argsDenote, outerDenotes⟩ :=
        denotes.node_applied canonical.toCoherent
      obtain ⟨declared, foundStart, notCompanion⟩ := plain
      obtain ⟨companion, found⟩ := growing.grows.features_grow.get_eq _ _ foundStart
      refine .look (run_node checker id) ?_
      rw [node]
      refine .look (run_feature checker found) ?_
      split
      next isUniverse =>
        obtain rfl := (growing.lawful.outer_eq_none_iff feature _ found).mp
          (Option.isNone_iff_eq_none.mp isUniverse)
        refine .pure ⟨growing, .refl checker, .outermost args outer isRef isThis, ?_⟩
        rw [FeatureTable.metatype_of_missing growing.lawful.companion_universe]
        exact denotes
      next isElsewhere =>
        refine .bind (growing.ensures_companion foundStart isElsewhere notCompanion) ?_
        rintro after₁ _ ⟨companion, rfl, growing₁, growth₁, isCompanion⟩
        have carry : ∀ {later : Checker}, start.GrowsLawfully later → checker.Grows later →
            ∀ {id : TypeId} {ty : Ty}, checker.types.Denotes id ty →
              later.types.Denotes id ty := fun growing' growth _ _ denotes =>
          denotes.of_extends canonical.toCoherent
            growing'.wellFormed.types_canonical.toCoherent growth.types_extend
        have outerTaken : Ensures after₁ (outerId.mapM (metatypeWithin depth))
            fun after result => start.GrowsLawfully after ∧ after₁.Grows after ∧
              (∀ ty, outer = some ty → after.features.HasMetatype ty) ∧
                Option.Rel after.types.Denotes result
                  (outer.map after.features.metatype) := by
          cases outerDenotes with
          | none => exact .pure ⟨growing₁, .refl after₁, by simp, .none⟩
          | some aroundDenotes =>
            refine .bind (ih growing₁
              (carry growing₁ growth₁ aroundDenotes) (around _ rfl)) ?_
            rintro after₂ result ⟨growing₂, growth₂, hasOuter, resultDenotes⟩
            refine .pure ⟨growing₂, growth₂, ?_, .some resultDenotes⟩
            rintro _ ⟨⟩
            exact hasOuter
        refine .bind outerTaken ?_
        rintro after₂ newOuter ⟨growing₂, growth₂, hasOuter, newOuterDenotes⟩
        have growth := growth₁.trans growth₂
        have linked := growth₂.features_grow.companionOf_eq growing₁.lawful
          growing₂.lawful isCompanion
        refine .weaken (growing₂.ensures_applied companion
          (.cons (carry growing₂ growth denotes)
            (argsDenote.imp fun _ _ => carry growing₂ growth)) newOuterDenotes false) ?_
        rintro after₃ result ⟨growing₃, growth₃, featuresEq, resultDenotes⟩
        rw [featuresEq, FeatureTable.metatype_of_companion linked]
        exact ⟨growing₃, growth.trans growth₃,
          .companion linked args hasOuter isRef isThis, resultDenotes⟩

/-- The metatype can be taken if the missing companions can be created. -/
theorem Prepared.finishes_metatypeWithin (prepared : start.Prepared) {depth : Nat} {id : TypeId}
    {ty : Ty} (deep : id.index < depth) (denotes : checker.types.Denotes id ty)
    (chain : ty.Chain fun feature _ => start.features.DeclaresPlain feature) :
    Finishes checker (metatypeWithin depth id) := by
  induction depth generalizing checker id ty with
  | zero => exact absurd deep (Nat.not_lt_zero _)
  | succ depth ih =>
    cases chain with
    | @applied feature args outer isRef isThis plain around =>
      have coherent := growing.wellFormed.types_canonical.toCoherent
      obtain ⟨argIds, outerId, node, _, outerDenotes⟩ := denotes.node_applied coherent
      obtain ⟨declared, foundStart, notCompanion⟩ := plain
      obtain ⟨_, found⟩ := growing.grows.features_grow.get_eq _ _ foundStart
      refine .step (run_node checker id) ?_
      rw [node]
      refine .step (run_feature checker found) ?_
      split
      · exact .pure id
      next isElsewhere =>
        refine .bind (prepared.finishes_companion? growing ⟨declared, foundStart⟩) ?_
        intro answer after₁ run₁
        obtain ⟨companion, rfl, growing₁, growth₁, _⟩ :=
          growing.ensures_companion foundStart isElsewhere notCompanion answer after₁ run₁
        have outerTaken : Finishes after₁ (outerId.mapM (metatypeWithin depth)) := by
          cases outerDenotes with
          | none => exact .pure none
          | @some aroundId _ aroundDenotes =>
            have smaller := coherent.child_lt id denotes.1 aroundId (by
              rw [node]
              exact List.mem_append_right _ (by simp))
            exact .bind (ih growing₁ (by omega)
              (aroundDenotes.of_extends coherent
                growing₁.wellFormed.types_canonical.toCoherent growth₁.types_extend)
              (around _ rfl)) fun _ _ _ => .pure _
        exact .bind outerTaken fun _ _ _ => .onTypes _

end

section

variable {start origin checker : Checker}

/-- When all companions are there, taking the metatype only makes types. -/
theorem realizes_metatypeWithin (lawful : start.features.Lawful)
    (resumes : start.Resumes (fun _ => True) origin checker) {depth : Nat} {id : TypeId} {ty : Ty}
    (deep : id.index < depth) (denotes : checker.types.Denotes id ty)
    (hasMetatype : start.features.HasMetatype ty) :
    Realizes (.smooth start (fun _ => True) origin) checker (metatypeWithin depth id)
      (some (start.features.metatype ty)) fun after => after.types.Denotes := by
  induction depth generalizing checker id ty with
  | zero => exact absurd deep (Nat.not_lt_zero _)
  | succ depth ih =>
    have canonical := resumes.types_canonical
    have featuresEq := resumes.features_eq
    cases hasMetatype with
    | outermost args outer isRef isThis =>
      obtain ⟨argIds, outerId, node, _, _⟩ := denotes.node_applied canonical.toCoherent
      obtain ⟨declared, found⟩ := lawful.universe_declared
      have isUniverse : declared.isUniverse = true :=
        Option.isNone_iff_eq_none.mpr ((lawful.outer_eq_none_iff _ declared found).mpr rfl)
      refine .look (run_node checker id) ?_
      rw [node]
      refine .look (run_feature checker (featuresEq ▸ found)) ?_
      rw [if_pos isUniverse, FeatureTable.metatype_of_missing lawful.companion_universe]
      exact .pure resumes denotes
    | @companion feature companion outer isCompanion args around isRef isThis =>
      obtain ⟨argIds, outerId, node, argsDenote, outerDenotes⟩ :=
        denotes.node_applied canonical.toCoherent
      obtain ⟨declared, found, _⟩ := FeatureTable.exists_of_companionOf isCompanion
      refine .look (run_node checker id) ?_
      rw [node]
      refine .look (run_feature checker (featuresEq ▸ found)) ?_
      split
      next isUniverse =>
        obtain rfl := (lawful.outer_eq_none_iff _ declared found).mp
          (Option.isNone_iff_eq_none.mp isUniverse)
        rw [lawful.companion_universe] at isCompanion
        cases isCompanion
      next =>
        refine .look (run_companion? (featuresEq ▸ isCompanion)) ?_
        have outerTaken : Realizes (.smooth start (fun _ => True) origin) checker
            (outerId.mapM (metatypeWithin depth)) (some (outer.map start.features.metatype))
            fun after => Option.Rel after.types.Denotes := by
          cases outerDenotes with
          | none => exact .pure resumes .none
          | @some aroundId _ aroundDenotes =>
            have smaller := canonical.toCoherent.child_lt id denotes.1 aroundId (by
              rw [node]
              exact List.mem_append_right _ (by simp))
            refine .follow (ih resumes (by omega) aroundDenotes (around _ rfl)) ?_
            exact fun _ _ resumes' _ takenDenotes => .pure resumes' (.some takenDenotes)
        refine .follow outerTaken ?_
        intro after newOuter resumes' onward newOuterDenotes
        rw [FeatureTable.metatype_of_companion isCompanion]
        exact .makes_of_liberal resumes' (fun _ _ => trivial) (TypeStore.makes_applied
          resumes'.types_canonical companion
          (.cons (resumes.denotes resumes'.toObeys onward denotes)
            (resumes.denotesAll resumes'.toObeys onward argsDenote)) newOuterDenotes false false)

end

end Checker

end FeatureTypes

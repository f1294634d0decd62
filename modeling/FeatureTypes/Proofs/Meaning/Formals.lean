import FeatureTypes.Proofs.Meaning.SelfFormals
import FeatureTypes.Proofs.Meaning.Smooth
import FeatureTypes.Proofs.Store.Shifting

/-!
# Rewriting formals

Several operations go through a type and put something in the place of each formal.  On
trees they are all the same but for what is put there.
-/

namespace FeatureTypes

variable {settle' : FormalId → Bool → Option Ty}

/-! ## Trees -/

namespace Ty

variable {settle : FormalId → Bool → Option Ty}

theorem mapFormals_ne_none {ty : Ty}
    (settles : ∀ id boxed, .formal id boxed ∈ ty.parts → settle id boxed ≠ none) :
    ty.mapFormals settle ≠ none := by
  induction ty with
  | applied feature args outer isRef isThis argsMapped outerMapped =>
    have mapsArgs : args.mapM (mapFormals settle) ≠ none :=
      mapM_ne_none fun arg member => argsMapped arg member fun id boxed occurs =>
        settles id boxed (mem_parts_of_mem_args member occurs)
    obtain ⟨newArgs, argsEq⟩ := Option.ne_none_iff_exists'.mp mapsArgs
    rw [mapFormals_applied, argsEq]
    cases outer with
    | none => exact Option.some_ne_none _
    | some around =>
      obtain ⟨newOuter, outerEq⟩ := Option.ne_none_iff_exists'.mp (outerMapped around rfl
        fun id boxed occurs => settles id boxed (mem_parts_of_outer occurs))
      rw [Option.mapM_some, outerEq]
      exact Option.some_ne_none _
  | formal id boxed =>
    rw [mapFormals_formal]
    exact settles id boxed (self_mem_parts _)
  | _ => exact Option.some_ne_none _

theorem mapFormals_settleShifted {source : FeatureId} {offset : Nat} {ty : Ty}
    (shiftable : ty.Shiftable source offset) (target : FeatureId) :
    ty.mapFormals (settleShifted source target offset) = some (ty.shift source target offset) := by
  induction ty with
  | formal id boxed =>
    rw [mapFormals_formal, settleShifted]
    by_cases belongs : id.feature = source
    · rw [if_neg (not_not.mpr belongs), if_pos (shiftable _ (self_mem_parts _) belongs),
        shift_own belongs]
    · rw [if_pos belongs, shift_foreign belongs]
  | applied feature args outer isRef isThis argsShifted outerShifted =>
    obtain ⟨argsShiftable, outerShiftable⟩ := shiftable_applied_iff.mp shiftable
    rw [mapFormals_applied, shift_applied,
      mapM_eq_some_map fun arg member => argsShifted arg member (argsShiftable arg member),
      optionMapM_eq_some_map fun around present =>
        outerShifted around present (outerShiftable around present)]
    rfl
  | _ => rfl

/-- Boxing commutes with rewriting if it does for the formal that the type may be. -/
theorem mapFormals_asRef {ty : Ty}
    (boxes : ∀ id boxed, ty = .formal id boxed → settle id true = (settle id boxed).map asRef) :
    ty.asRef.mapFormals settle = (ty.mapFormals settle).map asRef := by
  cases ty with
  | formal id boxed => simpa [asRef] using boxes id boxed rfl
  | applied feature args outer isRef isThis =>
    simp only [asRef, mapFormals_applied, Option.map_bind, Option.bind_eq_bind,
      Function.comp_def, Option.pure_def, Option.map_some]
  | _ => rfl

end Ty

/-! ## What is put in the place of formals -/

namespace Ty

/-- The formal, or `replacement` for the formal of `companion` for the type at hand. -/
def settleThis (companion : FeatureId) (replacement id : FormalId) (boxed : Bool) : Option Ty :=
  return .formal (if id = ⟨companion, 0⟩ then replacement else id) boxed

end Ty

namespace Signature

variable (signature : Signature)

/-- Turns the formals of features into those of their companions, for `id` and the features
around it. -/
def liftFormalsWithin : (depth : Nat) → (id : FeatureId) → (ty : Ty) → Option Ty
  | 0, _, _ => none
  | depth + 1, id, ty => do
    let declared ← signature.feature id
    match declared.outer with
    | none => return ty
    | some outer =>
      let ty ← liftFormalsWithin depth outer ty
      match declared.origin with
      | none => return ty
      | some origin => ty.mapFormals (Ty.settleShifted origin id 1)

theorem dropThisFormals_eq_mapFormals (ty : Ty) :
    signature.dropThisFormals ty = ty.mapFormals signature.dropThisFormal := by
  rw [dropThisFormals, dropThisFormalAt_eq_settleFormals, Ty.mapFormals]

/-- The formal of a companion for the type at hand, which is a value. -/
def StandsForValue (id : FormalId) : Prop :=
  id.index = 0 ∧ ∃ companion origin declared, signature.feature id.feature = some companion ∧
    companion.origin = some origin ∧ signature.feature origin = some declared ∧
      declared.isRef = false

theorem dropThisFormal_shape (id : FormalId) :
    (∀ boxed, signature.dropThisFormal id boxed = none) ∨
    ((∀ boxed, signature.dropThisFormal id boxed = some (.formal id boxed)) ∧
      ¬signature.StandsForValue id) ∨
    ∃ companion origin, id.index = 0 ∧ signature.feature id.feature = some companion ∧
      companion.origin = some origin ∧
        ∀ boxed, signature.dropThisFormal id boxed = (signature.selfType origin).map Ty.asThis := by
  by_cases first : id.index = 0
  · cases declared : signature.feature id.feature with
    | none => exact Or.inl fun boxed => by simp [dropThisFormal, first, declared]
    | some companion =>
      cases isOrigin : companion.origin with
      | none =>
        refine Or.inr (Or.inl ⟨fun boxed => ?_, ?_⟩)
        · simp [dropThisFormal, first, declared, isOrigin]
        · rintro ⟨_, companion', _, _, declared', isOrigin', _⟩
          obtain rfl := Option.some.inj (declared.symm.trans declared')
          simp [isOrigin] at isOrigin'
      | some origin =>
        refine Or.inr (Or.inr ⟨companion, origin, first, rfl, isOrigin, fun boxed => ?_⟩)
        simp [dropThisFormal, first, declared, isOrigin, Option.map_eq_bind]
  · refine Or.inr (Or.inl ⟨fun boxed => ?_, fun standsForValue => first standsForValue.1⟩)
    rw [dropThisFormal, if_pos first]
    rfl

theorem asRef_asThis_selfType_iff {origin : FeatureId} {self : Ty}
    (selfEq : signature.selfType origin = some self) :
    self.asThis = self.asThis.asRef ↔
      ∃ declared, signature.feature origin = some declared ∧ declared.isRef = true := by
  obtain ⟨declared, found, selfEq⟩ := Option.bind_eq_some_iff.mp selfEq
  obtain ⟨outer, _, selfEq⟩ := Option.bind_eq_some_iff.mp selfEq
  obtain rfl := Option.some.inj selfEq
  simp [Ty.asThis, Ty.asRef, found]

theorem dropThisFormal_asRef_iff {id : FormalId} {boxed : Bool} {value value' : Ty}
    (dropped : signature.dropThisFormal id true = some value)
    (dropped' : signature.dropThisFormal id boxed = some value') :
    value = value'.asRef ↔ ¬signature.StandsForValue id := by
  rcases signature.dropThisFormal_shape id with
    undeclared | ⟨stays, notValue⟩ | ⟨companion, origin, first, declared, isOrigin, becomes⟩
  · simp [undeclared] at dropped
  · rw [stays] at dropped dropped'
    obtain rfl := Option.some.inj dropped
    obtain rfl := Option.some.inj dropped'
    exact iff_of_true rfl notValue
  · rw [becomes] at dropped dropped'
    obtain ⟨self, selfEq, rfl⟩ := Option.map_eq_some_iff.mp dropped
    obtain rfl := Option.some.inj (dropped.symm.trans dropped')
    rw [signature.asRef_asThis_selfType_iff selfEq]
    obtain ⟨around, found, _⟩ := Option.bind_eq_some_iff.mp selfEq
    simp [StandsForValue, first, declared, isOrigin, found]

theorem dropThisFormals_asRef_eq_none_iff (ty : Ty) :
    signature.dropThisFormals ty.asRef = none ↔ signature.dropThisFormals ty = none := by
  cases ty with
  | formal id boxed =>
    rw [Ty.asRef, dropThisFormals_formal, dropThisFormals_formal]
    rcases signature.dropThisFormal_shape id with
      undeclared | ⟨stays, _⟩ | ⟨_, _, _, _, _, becomes⟩
    · simp [undeclared]
    · simp [stays]
    · rw [becomes, becomes]
  | _ =>
    rw [dropThisFormals_eq_mapFormals, Ty.mapFormals_asRef (by simp),
      dropThisFormals_eq_mapFormals, Option.map_eq_none_iff]

theorem dropThisFormals_asRef_cases {ty boxed : Ty}
    (dropped : signature.dropThisFormals ty.asRef = some boxed) :
    ∃ plain, signature.dropThisFormals ty = some plain ∧ (boxed = plain ∨ boxed = plain.asRef) := by
  cases ty with
  | formal id isBoxed =>
    rw [Ty.asRef, dropThisFormals_formal] at dropped
    rw [dropThisFormals_formal]
    rcases signature.dropThisFormal_shape id with
      undeclared | ⟨stays, _⟩ | ⟨_, _, _, _, _, becomes⟩
    · simp [undeclared] at dropped
    · rw [stays] at dropped ⊢
      obtain rfl := Option.some.inj dropped
      exact ⟨_, rfl, Or.inr rfl⟩
    · rw [becomes] at dropped ⊢
      exact ⟨boxed, dropped, Or.inl rfl⟩
  | _ =>
    rw [dropThisFormals_eq_mapFormals, Ty.mapFormals_asRef (by simp),
      ← dropThisFormals_eq_mapFormals] at dropped
    obtain ⟨plain, plainEq, rfl⟩ := Option.map_eq_some_iff.mp dropped
    exact ⟨plain, plainEq, Or.inr rfl⟩

theorem liftFormalsWithin_asRef (depth : Nat) (id : FeatureId) (ty : Ty) :
    signature.liftFormalsWithin depth id ty.asRef =
      (signature.liftFormalsWithin depth id ty).map Ty.asRef := by
  induction depth generalizing id with
  | zero => rfl
  | succ depth ih =>
    rw [liftFormalsWithin, liftFormalsWithin]
    cases signature.feature id with
    | none => rfl
    | some declared =>
      simp only [Option.bind_eq_bind, Option.bind_some]
      cases declared.outer with
      | none => rfl
      | some outer =>
        simp only [ih outer]
        cases signature.liftFormalsWithin depth outer ty with
        | none => rfl
        | some lifted =>
          simp only [Option.map_some, Option.bind_some]
          cases declared.origin with
          | none => rfl
          | some origin =>
            refine Ty.mapFormals_asRef fun formal boxed _ => ?_
            unfold Ty.settleShifted
            split <;> [rfl; (split <;> rfl)]

end Signature

namespace Checker

variable {start checker : Checker}

/-! ## Operations that rewrite types -/

/-- The operation does on stored types what the function does on trees, for the features of
`start`: it comes to a result just where the function does, to the one that the function gives,
and it does so whatever is remembered. -/
structure Rewrites (start : Checker) (rewrite : TypeId → CheckM TypeId)
    (meaning : Ty → Option Ty) : Prop where
  realizes : ∀ (terms : Terms start.signature), terms.Liberal →
    ∀ {checker : Checker} {id : TypeId} {ty : Ty}, terms.invariant checker →
      checker.types.Denotes id ty → Realizes terms checker (rewrite id) (meaning ty)
        fun after => after.types.Denotes
  couples : ∀ {memos : Checker → Checker → Prop}, Lockstep.Stable memos →
    ∀ (pair : Lockstep.Pair memos) {id : TypeId}, pair.first.types.Holds id →
      (lockstep memos).couples pair (rewrite id) (rewrite id) (lockstep memos).same

namespace Rewrites

theorem asRef (start : Checker) : Rewrites start Checker.asRef fun ty => some ty.asRef where
  realizes _ liberal _ _ _ holds denotes := .asRef holds liberal denotes
  couples stable _ _ held := (Lockstep.core stable).asRef ⟨rfl, held⟩

/-- Rewriting operations may follow one another. -/
theorem comp {first second : TypeId → CheckM TypeId} {meaning meaning' : Ty → Option Ty}
    (firstRewrites : Rewrites start first meaning)
    (secondRewrites : Rewrites start second meaning') :
    Rewrites start (fun id => first id >>= second) fun ty => (meaning ty).bind meaning' where
  realizes terms liberal _ _ _ holds denotes := by
    refine .bind (firstRewrites.realizes terms liberal holds denotes) ?_
    intro after result value holds' _ resultDenotes
    exact secondRewrites.realizes terms liberal holds' resultDenotes
  couples stable pair _ held := by
    refine (Lockstep.core stable).bind (firstRewrites.couples stable pair held) ?_
    rintro pair' result _ _ ⟨rfl, resultHeld⟩
    exact secondRewrites.couples stable pair' resultHeld

section

variable {rewrite : TypeId → CheckM TypeId} {meaning : Ty → Option Ty}
  (rewrites : Rewrites start rewrite meaning)

include rewrites

theorem run_twin {twin : Checker} (twins : checker.Twins twin) {id : TypeId}
    (held : checker.types.Holds id) {result : TypeId} {after : Checker}
    (run : (rewrite id).run checker = .ok result after) :
    ∃ after', (rewrite id).run twin = .ok result after' ∧ after.Twins after' := by
  have stable : Lockstep.Stable fun _ _ => True := fun _ _ _ _ _ => trivial
  let pair : Lockstep.Pair fun _ _ => True := ⟨checker, twin, twins, trivial⟩
  have coupled := rewrites.couples stable pair held
  simp only [lockstep] at coupled
  change Lockstep.Outcome pair _ (EStateM.run _ checker) _ at coupled
  rw [run] at coupled
  obtain ⟨next, rfl, result', run', resultEq, _⟩ := coupled.exists_pair
  obtain rfl : result' = result := resultEq
  exact ⟨next.second, run', next.twins⟩

variable (wellFormed : checker.WellFormed) (follows : checker.Follows start.signature)
  {id : TypeId} {ty : Ty} (denotes : checker.types.Denotes id ty)

include wellFormed follows denotes

theorem exists_of_run {result : TypeId} {after : Checker}
    (run : (rewrite id).run checker = .ok result after) :
    ∃ value, meaning ty = some value ∧ after.types.Denotes result value ∧
      checker.types.Extends after.types ∧ after.features = checker.features ∧
        after.WellFormed := by
  obtain ⟨other, run', twins⟩ := rewrites.run_twin wellFormed.twins.unmemoized denotes.1 run
  obtain ⟨_, onward, value, valueEq, resultDenotes⟩ :=
    (rewrites.realizes (.free _) Demands.liberal_lax (follows.obeys_unmemoized wellFormed)
      denotes).finds result other run'
  rw [twins.types_eq] at resultDenotes
  exact ⟨value, valueEq, resultDenotes, twins.types_eq ▸ onward.types_extend,
    twins.features_eq ▸ onward.features_eq, twins.symm.wellFormed_twin⟩

/-- Nothing that is remembered plays a part, so it may be as it is. -/
theorem exists_run (featuresEq : checker.features = start.features) (isSome : meaning ty ≠ none) :
    ∃ result after, (rewrite id).run checker = .ok result after := by
  obtain ⟨value, valueEq⟩ := Option.ne_none_iff_exists'.mp isSome
  have resumes : start.Resumes (fun _ => True) checker.unmemoized checker.unmemoized :=
    ⟨follows.obeys_unmemoized wellFormed, featuresEq, absurd trivial,
      fun frozen => absurd trivial (frozen .error)⟩
  have realizes := rewrites.realizes (.smooth _ _ _) (fun _ _ => trivial) resumes denotes
  rw [valueEq] at realizes
  obtain ⟨result, after, run, _⟩ := realizes.exists_run
  obtain ⟨after', run', _⟩ := rewrites.run_twin wellFormed.twins.unmemoized.symm denotes.1 run
  exact ⟨result, after', run'⟩

end

end Rewrites

/-! ## The operations -/

theorem rewrites_replaceThisFormal (start : Checker) (companion : FeatureId)
    (replacement : FormalId) :
    Rewrites start (replaceThisFormal companion replacement)
      (Ty.mapFormals (Ty.settleThis companion replacement)) where
  realizes terms liberal _ _ _ holds denotes := by
    refine realizes_transform terms liberal (visits_of_formals terms (fun _ => rfl) ?_) holds
      denotes
    intro after id formal boxed holds denotes
    rw [Ty.settleThis]
    split
    next isOther =>
      exact .pure holds ⟨id, rfl, denotes⟩
    next isThis =>
      rw [if_pos (of_not_not isThis)]
      refine .follow (.makes_of_liberal holds liberal
        (TypeStore.makes_intern (terms.canonical holds) fun _ member => by cases member)) ?_
      intro after₁ replaced holds₁ _ replacedDenotes
      cases boxed with
      | false => exact .pure holds₁ ⟨replaced, rfl, replacedDenotes⟩
      | true =>
        refine .follow (.asRef holds₁ liberal replacedDenotes) ?_
        intro after₂ result holds₂ _ resultDenotes
        exact .pure holds₂ ⟨result, rfl, resultDenotes⟩
  couples stable _ _ held :=
    (Lockstep.core stable).replaceThisFormal companion replacement ⟨rfl, held⟩

theorem rewrites_shiftFormals (start : Checker) (source target : FeatureId) (offset : Nat) :
    Rewrites start (shiftFormals source target offset)
      (Ty.mapFormals (Ty.settleShifted source target offset)) where
  realizes terms liberal _ _ _ holds denotes := realizes_transform terms liberal
    (visits_shiftFormals terms liberal source target offset) holds denotes
  couples stable _ _ held := (Lockstep.core stable).shiftFormals source target offset ⟨rfl, held⟩

theorem rewrites_selfType (start : Checker) (feature : FeatureId) :
    Rewrites start (fun _ => selfType feature) fun _ => start.signature.selfType feature where
  realizes terms liberal _ _ _ holds _ := realizes_selfType terms liberal holds feature
  couples stable _ _ _ := (Lockstep.core stable).selfType feature

theorem rewrites_instantiate (start : Checker) (feature : FeatureId) :
    Rewrites start (fun _ => instantiate feature []) fun _ =>
      start.signature.instantiate feature [] where
  realizes terms liberal _ _ _ holds _ := realizes_instantiate terms liberal holds feature .nil
  couples stable _ _ _ := (Lockstep.core stable).instantiate feature .nil

theorem rewrites_dropThisFormals (start : Checker) :
    Rewrites start dropThisFormals start.signature.dropThisFormals where
  realizes terms liberal _ _ _ holds denotes :=
    realizes_dropThisFormals terms liberal holds denotes
  couples stable _ _ held := (Lockstep.core stable).dropThisFormals ⟨rfl, held⟩

theorem rewrites_liftFormalsWithin (start : Checker) (depth : Nat) (id : FeatureId) :
    Rewrites start (liftFormalsWithin depth id) (start.signature.liftFormalsWithin depth id) where
  realizes terms liberal checker ty tree holds denotes := by
    induction depth generalizing checker id ty tree with
    | zero => exact .of_error rfl (.inl rfl)
    | succ depth ih =>
      refine .feature holds id ?_
      intro declared _
      dsimp only [Feature.outline]
      cases declared.outer with
      | none => exact .pure holds denotes
      | some outer =>
        refine .bind (ih outer checker ty tree holds denotes) ?_
        intro after lifted liftedTree holds' _ liftedDenotes
        cases declared.origin with
        | none => exact .pure holds' liftedDenotes
        | some origin =>
          exact (rewrites_shiftFormals start origin id 1).realizes terms liberal holds'
            liftedDenotes
  couples stable _ _ held := (Lockstep.core stable).liftFormalsWithin depth id ⟨rfl, held⟩

end Checker

end FeatureTypes

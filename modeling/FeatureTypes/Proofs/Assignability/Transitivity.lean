import FeatureTypes.Proofs.Checker.Upkeep
import FeatureTypes.Proofs.Meaning.Assignability

/-!
# Assignability is transitive

Dropping the formals for the type at hand a second time must not change anything: this is
where features inside companions are excluded.
-/

namespace FeatureTypes

theorem exists_of_mem_mapM {α β : Type} {visit : α → Option β} {list : List α} {list' : List β}
    (mapped : list.mapM visit = some list') {result : β} (member : result ∈ list') :
    ∃ item ∈ list, visit item = some result := by
  obtain ⟨lengthEq, each⟩ := List.forall₂_iff_get.mp (mapM_eq_some_iff.mp mapped)
  obtain ⟨position, bound, rfl⟩ := List.mem_iff_getElem.mp member
  exact ⟨_, List.getElem_mem (lengthEq ▸ bound), each position (lengthEq ▸ bound) bound⟩

/-! ## Features around features -/

namespace FeatureTable

/-- The feature `id` is declared directly in `outer`. -/
def IsIn (table : FeatureTable) (id outer : FeatureId) : Prop :=
  ∃ declared, table.get id = .ok declared ∧ declared.outer = some outer

/-- Nothing but companions lies inside a companion, at any depth. -/
def CompanionsApart (table : FeatureTable) : Prop :=
  ∀ id, table.DeclaresPlain id → ∀ outer, Relation.TransGen table.IsIn id outer →
    ∀ around, table.get outer = .ok around → around.isCompanion = false

end FeatureTable

namespace Signature

variable {signature : Signature}

/-! ## Dropping formals twice -/

def IsPlain (signature : Signature) (id : FeatureId) : Prop :=
  ∀ outline, signature.feature id = some outline → outline.origin = none

/-- Formals carry their feature, and companions are apart from what is none. -/
structure Apart (signature : Signature) : Prop where
  formal_feature : ∀ id outline, signature.feature id = some outline →
    ∀ formal ∈ outline.formals, formal.id.feature = id
  origin_plain : ∀ id outline, signature.feature id = some outline →
    ∀ origin, outline.origin = some origin → signature.IsPlain origin
  outer_plain : ∀ id outline, signature.feature id = some outline → outline.origin = none →
    ∀ outer, outline.outer = some outer → signature.IsPlain outer

/-- Dropping formals for the type at hand keeps every formal that occurs in the type. -/
def Keeps (signature : Signature) (ty : Ty) : Prop :=
  ∀ id boxed, .formal id boxed ∈ ty.parts →
    signature.dropThisFormal id boxed = some (.formal id boxed)

theorem Keeps.dropThisFormals {ty : Ty} (keeps : signature.Keeps ty) :
    signature.dropThisFormals ty = some ty := by
  apply Ty.transform_of_unchanged
  intro part occurs
  cases part with
  | formal id boxed =>
    right
    rw [dropThisFormalAt, keeps id boxed occurs]
    rfl
  | _ => exact Or.inl rfl

theorem keeps_applied {feature : FeatureId} {args : List Ty} {outer : Option Ty}
    {isRef isThis : Bool} (argsKeep : ∀ arg ∈ args, signature.Keeps arg)
    (outerKeeps : ∀ around ∈ outer, signature.Keeps around) :
    signature.Keeps (.applied feature args outer isRef isThis) := by
  intro id boxed occurs
  rcases Ty.mem_parts_applied.mp occurs with isSelf | ⟨arg, member, inArg⟩ |
    ⟨around, present, inOuter⟩
  · cases isSelf
  · exact argsKeep arg member id boxed inArg
  · exact outerKeeps around present id boxed inOuter

theorem Apart.keeps_selfTypeWithin (apart : signature.Apart) {depth : Nat} {id : FeatureId}
    (plain : signature.IsPlain id) {self : Ty}
    (selfEq : signature.selfTypeWithin depth id = some self) : signature.Keeps self := by
  induction depth generalizing id self with
  | zero => cases selfEq
  | succ depth ih =>
    obtain ⟨outline, declared, selfEq⟩ := Option.bind_eq_some_iff.mp selfEq
    obtain ⟨outer, outerEq, selfEq⟩ := Option.bind_eq_some_iff.mp selfEq
    obtain rfl := Option.some.inj selfEq
    apply keeps_applied
    · intro arg member formal boxed occurs
      obtain ⟨entry, inFormals, rfl⟩ := List.mem_map.mp member
      obtain ⟨rfl, rfl⟩ : formal = entry.id ∧ boxed = false := by
        simpa [Ty.parts] using occurs
      have featureEq := apart.formal_feature id outline declared entry inFormals
      by_cases first : entry.id.index = 0
      · simp [dropThisFormal, first, featureEq, declared, plain outline declared]
      · simp [dropThisFormal, first]
    · intro around present
      rw [Option.mem_def] at present
      subst present
      obtain ⟨outline', declared', outerEq⟩ := Option.bind_eq_some_iff.mp outerEq
      obtain rfl : outline = outline' := Option.some.inj (declared.symm.trans declared')
      cases isOuter : outline.outer with
      | none => simp [isOuter] at outerEq
      | some outer =>
        rw [isOuter] at outerEq
        obtain ⟨outline'', _, outerEq⟩ := Option.bind_eq_some_iff.mp outerEq
        split at outerEq
        · simp at outerEq
        · obtain ⟨_, outerTypeEq, outerEq⟩ := Option.bind_eq_some_iff.mp outerEq
          obtain rfl := Option.some.inj (Option.some.inj outerEq)
          exact ih
            (apart.outer_plain id outline declared (plain outline declared) outer isOuter)
            outerTypeEq

theorem selfType_eq_applied {id : FeatureId} {self : Ty}
    (selfEq : signature.selfType id = some self) :
    ∃ args outer isRef, self = .applied id args outer isRef false := by
  obtain ⟨outline, _, selfEq⟩ := Option.bind_eq_some_iff.mp selfEq
  obtain ⟨outer, _, selfEq⟩ := Option.bind_eq_some_iff.mp selfEq
  exact ⟨_, _, _, (Option.some.inj selfEq).symm⟩

theorem dropThisFormal_cases {id : FormalId} {boxed : Bool} {plain : Ty}
    (dropped : signature.dropThisFormal id boxed = some plain) :
    plain = .formal id boxed ∨ ∃ outline origin self, signature.feature id.feature = some outline ∧
      outline.origin = some origin ∧ signature.selfType origin = some self ∧
        plain = self.asThis := by
  by_cases first : id.index = 0
  · rw [dropThisFormal, if_neg (by simp [first])] at dropped
    obtain ⟨outline, declared, dropped⟩ := Option.bind_eq_some_iff.mp dropped
    cases isOrigin : outline.origin with
    | none =>
      rw [isOrigin] at dropped
      exact Or.inl (Option.some.inj dropped).symm
    | some origin =>
      rw [isOrigin] at dropped
      obtain ⟨self, selfEq, dropped⟩ := Option.bind_eq_some_iff.mp dropped
      exact Or.inr ⟨outline, origin, self, declared, isOrigin, selfEq,
        (Option.some.inj dropped).symm⟩
  · rw [dropThisFormal, if_pos first] at dropped
    exact Or.inl (Option.some.inj dropped).symm

theorem dropThisFormals_formal (id : FormalId) (boxed : Bool) :
    signature.dropThisFormals (.formal id boxed) = signature.dropThisFormal id boxed := by
  rw [dropThisFormals, Ty.transform, dropThisFormalAt]
  cases signature.dropThisFormal id boxed <;> rfl

theorem dropThisFormals_applied {feature : FeatureId} {args : List Ty} {outer : Option Ty}
    {isRef isThis : Bool} {plain : Ty}
    (dropped : signature.dropThisFormals (.applied feature args outer isRef isThis) = some plain) :
    ∃ args' outer', args.mapM signature.dropThisFormals = some args' ∧
      outer.mapM signature.dropThisFormals = some outer' ∧
        plain = .applied feature args' outer' isRef isThis := by
  rw [dropThisFormals, Ty.transform_of_left rfl] at dropped
  obtain ⟨args', argsEq, dropped⟩ := Option.bind_eq_some_iff.mp dropped
  obtain ⟨outer', outerEq, dropped⟩ := Option.bind_eq_some_iff.mp dropped
  exact ⟨args', outer', argsEq, outerEq, (Option.some.inj dropped).symm⟩

theorem Apart.keeps_of_dropped (apart : signature.Apart) {ty plain : Ty}
    (dropped : signature.dropThisFormals ty = some plain) : signature.Keeps plain := by
  induction ty generalizing plain with
  | formal id boxed =>
    rw [dropThisFormals_formal] at dropped
    rcases dropThisFormal_cases dropped with rfl | ⟨outline, origin, self, declared, isOrigin,
      selfEq, rfl⟩
    · intro id' boxed' occurs
      obtain ⟨rfl, rfl⟩ : id' = id ∧ boxed' = boxed := by simpa [Ty.parts] using occurs
      exact dropped
    · have keeps : signature.Keeps self := apart.keeps_selfTypeWithin
        (apart.origin_plain id.feature outline declared origin isOrigin) selfEq
      obtain ⟨args, outer, isRef, rfl⟩ := selfType_eq_applied selfEq
      apply keeps_applied
      · intro arg member id' boxed' occurs
        exact keeps id' boxed' (Ty.mem_parts_of_mem_args member occurs)
      · intro around present id' boxed' occurs
        rw [Option.mem_def] at present
        subst present
        exact keeps id' boxed' (Ty.mem_parts_of_outer occurs)
  | applied feature args outer isRef isThis argsKeep outerKeeps =>
    obtain ⟨args', outer', argsEq, outerEq, rfl⟩ := dropThisFormals_applied dropped
    apply keeps_applied
    · intro arg' member'
      obtain ⟨arg, member, argEq⟩ := exists_of_mem_mapM argsEq member'
      exact argsKeep arg member argEq
    · intro around' present
      rw [Option.mem_def] at present
      subst present
      cases outer with
      | none => cases outerEq
      | some around =>
        rw [Option.mapM_some] at outerEq
        obtain ⟨_, aroundEq, isAround⟩ := Option.map_eq_some_iff.mp outerEq
        cases isAround
        exact outerKeeps around rfl aroundEq
  | _ =>
    obtain rfl := Option.some.inj dropped
    intro id boxed occurs
    simp [Ty.parts] at occurs

/-- Dropping a second time changes nothing. -/
theorem Apart.dropThisFormals_dropped (apart : signature.Apart) {ty plain : Ty}
    (dropped : signature.dropThisFormals ty = some plain) :
    signature.dropThisFormals plain = some plain :=
  (apart.keeps_of_dropped dropped).dropThisFormals

theorem isAbsorbing_of_dropped {ty plain : Ty} (dropped : signature.dropThisFormals ty = some plain)
    (absorbing : plain.isAbsorbing = true) : ty.isAbsorbing = true := by
  cases ty with
  | formal id boxed =>
    rw [dropThisFormals_formal] at dropped
    rcases dropThisFormal_cases dropped with rfl | ⟨_, _, self, _, _, selfEq, rfl⟩
    · exact absorbing
    · obtain ⟨args, outer, isRef, rfl⟩ := selfType_eq_applied selfEq
      simp [Ty.asThis, Ty.isAbsorbing] at absorbing
  | applied feature args outer isRef isThis =>
    obtain ⟨_, _, _, _, rfl⟩ := dropThisFormals_applied dropped
    simp [Ty.isAbsorbing] at absorbing
  | _ =>
    obtain rfl := Option.some.inj dropped
    exact absorbing

/-! ## Transitivity -/

theorem Takes.plain {target actual : Ty} (takes : signature.Takes target actual) :
    ∃ plainTarget plainActual, signature.dropThisFormals target = some plainTarget ∧
      signature.dropThisFormals actual = some plainActual := by
  cases takes with
  | atOnce targetPlain actualPlain => exact ⟨_, _, targetPlain, actualPlain⟩
  | above targetPlain actualPlain => exact ⟨_, _, targetPlain, actualPlain⟩
  | summand targetPlain actualPlain => exact ⟨_, _, targetPlain, actualPlain⟩

theorem Apart.takes_plain_iff (apart : signature.Apart) {target actual plainTarget plainActual : Ty}
    (targetPlain : signature.dropThisFormals target = some plainTarget)
    (actualPlain : signature.dropThisFormals actual = some plainActual) :
    signature.Takes plainTarget plainActual ↔ signature.Takes target actual := by
  rw [signature.takes_iff targetPlain actualPlain,
    signature.takes_iff (apart.dropThisFormals_dropped targetPlain)
      (apart.dropThisFormals_dropped actualPlain)]

theorem Apart.takes_of_above (apart : signature.Apart)
    {target plainTarget plainMiddle ancestor : Ty}
    (targetPlain : signature.dropThisFormals target = some plainTarget)
    (counts : plainTarget.ancestorsCount plainMiddle = true)
    (isAbove : signature.Above plainMiddle ancestor) (takes : signature.Takes plainTarget ancestor)
    {middle actual : Ty} (middlePlain : signature.dropThisFormals middle = some plainMiddle)
    (second : signature.Takes middle actual) : signature.Takes target actual := by
  have countsAll := counts
  simp only [Ty.ancestorsCount, Bool.and_eq_true] at counts
  obtain ⟨⟨notFormal, targetRef⟩, middleRef⟩ := counts
  induction second with
  | atOnce middlePlain' actualPlain settled =>
    obtain rfl := Option.some.inj (middlePlain.symm.trans middlePlain')
    simp only [Ty.takesAtOnce, Bool.or_eq_true, decide_eq_true_eq] at settled
    rcases settled with ((rfl | isVoid) | absorbing) | absorbing
    · exact .above targetPlain actualPlain countsAll isAbove takes
    · exact .atOnce targetPlain actualPlain (by simp [Ty.takesAtOnce, isVoid])
    · simp only [Ty.isAbsorbing, Bool.or_eq_true, decide_eq_true_eq] at absorbing
      rcases absorbing with rfl | rfl <;> simp [Ty.isRef] at middleRef
    · exact .atOnce targetPlain actualPlain (by simp [Ty.takesAtOnce, absorbing])
  | above middlePlain' actualPlain counts' isAbove' _ ih =>
    obtain rfl := Option.some.inj (middlePlain.symm.trans middlePlain')
    have further := ih (apart.dropThisFormals_dropped middlePlain)
    obtain ⟨_, plainAncestor, _, ancestorPlain⟩ := further.plain
    simp only [Ty.ancestorsCount, Bool.and_eq_true] at counts'
    refine .above targetPlain actualPlain ?_ isAbove' ?_
    · simp only [Ty.ancestorsCount, Bool.and_eq_true]
      exact ⟨⟨notFormal, targetRef⟩, counts'.2⟩
    · rw [← apart.takes_plain_iff (apart.dropThisFormals_dropped targetPlain) ancestorPlain]
      exact (apart.takes_plain_iff targetPlain ancestorPlain).mpr further
  | summand middlePlain' _ byValue =>
    obtain rfl := Option.some.inj (middlePlain.symm.trans middlePlain')
    simp [byValue] at middleRef

/-- A chain holds unless the type in the middle takes everything. -/
theorem Apart.takes_trans (apart : signature.Apart) {target middle actual : Ty}
    (first : signature.Takes target middle) (second : signature.Takes middle actual)
    (proper : middle.isAbsorbing = false) : signature.Takes target actual := by
  induction first generalizing actual with
  | @atOnce target middle plainTarget plainMiddle targetPlain middlePlain settled =>
    obtain ⟨_, plainActual, _, actualPlain⟩ := second.plain
    rw [signature.takes_iff middlePlain actualPlain] at second
    rw [signature.takes_iff targetPlain actualPlain]
    simp only [Ty.takesAtOnce, Bool.or_eq_true, decide_eq_true_eq] at settled
    rcases settled with ((rfl | rfl) | absorbing) | absorbing
    · exact second
    · -- Nothing but void itself and what can be assigned to anything goes to void.
      rcases second with settled | ⟨counts, _⟩ | ⟨_, _, isChoice, _⟩
      · left
        simp only [Ty.takesAtOnce, Bool.or_eq_true, decide_eq_true_eq] at settled ⊢
        rcases settled with ((isVoid | isVoid) | isVoid) | absorbing
        · exact Or.inl (Or.inl (Or.inr isVoid.symm))
        · exact Or.inl (Or.inl (Or.inr isVoid))
        · simp [Ty.isAbsorbing] at isVoid
        · exact Or.inr absorbing
      · simp [Ty.ancestorsCount, Ty.isRef] at counts
      · cases isChoice
    · exact Or.inl (by simp [Ty.takesAtOnce, absorbing])
    · rw [isAbsorbing_of_dropped middlePlain absorbing] at proper
      cases proper
  | above targetPlain middlePlain counts isAbove takes =>
    exact apart.takes_of_above targetPlain counts isAbove takes middlePlain second
  | summand targetPlain middlePlain byValue isChoice member _ ih =>
    obtain ⟨_, plainActual, _, actualPlain⟩ := second.plain
    refine .summand targetPlain actualPlain byValue isChoice member (ih ?_ ?_)
    · exact (apart.takes_plain_iff middlePlain actualPlain).mpr second
    · by_contra absorbing
      rw [Bool.not_eq_false] at absorbing
      rw [isAbsorbing_of_dropped middlePlain absorbing] at proper
      cases proper

end Signature

namespace Checker

/-! ## Answers of checkers -/

theorem Reachable.apart_signature {checker : Checker} (reachable : checker.Reachable)
    (apart : checker.features.CompanionsApart) : checker.signature.Apart := by
  have wellFormed := reachable.sound.toWellFormed
  have plain : ∀ id declared, checker.features.get id = .ok declared →
      declared.isCompanion = false → checker.signature.IsPlain id := by
    intro id declared found notCompanion outline isOutline
    obtain ⟨declared', found', rfl⟩ := signature_feature_eq_some_iff.mp isOutline
    obtain rfl : declared = declared' := Except.ok.inj (found.symm.trans found')
    simpa [Feature.isCompanion, Feature.outline] using notCompanion
  refine ⟨?_, ?_, ?_⟩
  · intro id outline isOutline formal member
    obtain ⟨declared, found, rfl⟩ := signature_feature_eq_some_iff.mp isOutline
    obtain ⟨entry, inFormals, rfl⟩ := List.mem_map.mp member
    obtain ⟨position, present⟩ := List.mem_iff_getElem?.mp inFormals
    have numbered := (wellFormed.features_wellFormed id declared found).formal_id position entry
      present
    simp [numbered]
  · intro id outline isOutline origin isOrigin
    obtain ⟨declared, found, rfl⟩ := signature_feature_eq_some_iff.mp isOutline
    obtain ⟨original, originalFound, notCompanion⟩ :=
      (reachable.built.orderly.each id declared found).origin_plain origin isOrigin
    exact plain origin original originalFound notCompanion
  · intro id outline isOutline noOrigin outer isOuter around isAround
    obtain ⟨declared, found, rfl⟩ := signature_feature_eq_some_iff.mp isOutline
    obtain ⟨declared', found', rfl⟩ := signature_feature_eq_some_iff.mp isAround
    have notCompanion : declared.isCompanion = false := by
      simpa [Feature.isCompanion, Feature.outline] using noOrigin
    have around := apart id ⟨declared, found, notCompanion⟩ outer
      (.single ⟨declared, found, isOuter⟩) declared' found'
    simpa [Feature.isCompanion, Feature.outline] using around

/-- What may be assigned to a type may be assigned to whatever takes that type.  The three
questions are put to the checker at any time after its memo tables were empty, while its
features stay as they are. -/
theorem isAssignable_trans
    (start : Checker) (reachable : start.Reachable)
    (byOwnerEmpty : start.byOwner.entries.isEmpty = true)
    (viaTypeEmpty : start.viaType.entries.isEmpty = true)
    (apart : start.features.CompanionsApart) (target middle actual : Ty)
    (middleTyped : middle ≠ .error) (middleKnown : middle ≠ .undefined)
    (takesMiddle : start.Decides target middle true)
    (middleTakes : start.Decides middle actual true) {answer : Bool}
    (completes : start.Decides target actual answer) : answer = true := by
  have faithful := reachable.sound.toWellFormed.faithful_of_empty byOwnerEmpty viaTypeEmpty
  have proper : middle.isAbsorbing = false := by
    simp [Ty.isAbsorbing, middleTyped, middleKnown]
  rw [completes.iff_takes faithful]
  exact (reachable.apart_signature apart).takes_trans ((takesMiddle.iff_takes faithful).mp rfl)
    ((middleTakes.iff_takes faithful).mp rfl) proper

def choiceOperations : List Operation :=
  [.declare (.feature "any" none true), .construct (.instantiate ⟨1⟩ []),
    .declare (.feature "sequence" none true), .declare (.formal ⟨2⟩ "T" ⟨3⟩ false {}),
    .declare (.parent ⟨2⟩ ⟨1⟩ []),
    .declare (.feature "range" none true), .declare (.formal ⟨3⟩ "U" ⟨3⟩ false {}),
    .declare (.parent ⟨3⟩ ⟨2⟩ [⟨5⟩]), .declare (.feature "option" none false),
    .declare (.choice ⟨4⟩ [⟨3⟩]), .companion ⟨3⟩, .construct (.instantiate ⟨2⟩ [⟨3⟩]),
    .construct (.instantiate ⟨3⟩ [⟨3⟩]), .construct (.instantiate ⟨4⟩ [])]

/-- The choice takes a sequence through its summand, and the sequence takes a range through
its parent. -/
theorem isAssignable_trans_choice :
    let start := afterAll choiceOperations {}
    start.features.CompanionsApart ∧
      start.Decides (start.types.tree ⟨10⟩) (start.types.tree ⟨8⟩) true ∧
      start.Decides (start.types.tree ⟨8⟩) (start.types.tree ⟨9⟩) true ∧
      ∃ answer, start.Decides (start.types.tree ⟨10⟩) (start.types.tree ⟨9⟩) answer ∧
        answer = true := by
  intro start
  have reachable : start.Reachable := (Reachable.initial {} {}).steps (by decide +kernel)
  have inUniverse : ∀ id declared, start.features.get id = .ok declared → declared.inUniverse :=
    FeatureTable.forall_declared (by decide +kernel)
  have universePlain : ∀ id declared, start.features.get id = .ok declared → id = .universe →
      declared.isCompanion = false :=
    FeatureTable.forall_declared (by decide +kernel)
  have isIn : ∀ id outer, start.features.IsIn id outer → outer = .universe := by
    rintro id outer ⟨declared, found, isOuter⟩
    rcases inUniverse id declared found with outermost | inUniverse
    · simp [outermost] at isOuter
    · exact Option.some.inj (isOuter.symm.trans inUniverse)
  have apart : start.features.CompanionsApart := by
    intro id _ outer path around found
    refine universePlain outer around found ?_
    cases path with
    | single step => exact isIn _ _ step
    | tail _ step => exact isIn _ _ step
  have takesMiddle : start.Decides (start.types.tree ⟨10⟩) (start.types.tree ⟨8⟩) true :=
    decides_of_run (by decide +kernel) (by decide +kernel)
  have middleTakes : start.Decides (start.types.tree ⟨8⟩) (start.types.tree ⟨9⟩) true :=
    decides_of_run (by decide +kernel) (by decide +kernel)
  have completes : start.Decides (start.types.tree ⟨10⟩) (start.types.tree ⟨9⟩) true :=
    decides_of_run (by decide +kernel) (by decide +kernel)
  refine ⟨apart, takesMiddle, middleTakes, true, completes, ?_⟩
  exact isAssignable_trans start reachable (by decide +kernel) (by decide +kernel) apart _ _ _
    (by decide +kernel) (by decide +kernel) takesMiddle middleTakes completes

end Checker

end FeatureTypes

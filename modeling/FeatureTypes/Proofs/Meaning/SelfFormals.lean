import FeatureTypes.Proofs.Assignability.Transitivity
import FeatureTypes.Proofs.Feature.Lawful

/-!
# Formals of self types
-/

namespace FeatureTypes

variable {companion : FeatureId} {boxed : Bool}

theorem exists_mem_of_mapM {α β : Type} {visit : α → Option β} {list : List α} {list' : List β}
    (mapped : list.mapM visit = some list') {item : α} (member : item ∈ list) :
    ∃ result ∈ list', visit item = some result := by
  obtain ⟨lengthEq, each⟩ := List.forall₂_iff_get.mp (mapM_eq_some_iff.mp mapped)
  obtain ⟨position, bound, rfl⟩ := List.mem_iff_getElem.mp member
  exact ⟨_, List.getElem_mem (lengthEq ▸ bound), each position bound (lengthEq ▸ bound)⟩

theorem optionMapM_eq_some_iff {α β : Type} {visit : α → Option β} {item : Option α}
    {item' : Option β} :
    item.mapM visit = some item' ↔
      Option.Rel (fun item result => visit item = some result) item item' := by
  cases item with
  | none => cases item' <;> simp [Option.mapM_none]
  | some item => cases item' <;> simp [Option.mapM_some]

namespace Ty

theorem formal_mem_parts_formal {id id' : FormalId} {boxed' : Bool} :
    Ty.formal id boxed ∈ (Ty.formal id' boxed').parts ↔ id = id' ∧ boxed = boxed' := by
  simp [parts]

theorem formal_mem_parts_applied {id : FormalId} {feature : FeatureId} {args : List Ty}
    {outer : Option Ty} {isRef isThis : Bool} :
    Ty.formal id boxed ∈ (Ty.applied feature args outer isRef isThis).parts ↔
      (∃ arg ∈ args, Ty.formal id boxed ∈ arg.parts) ∨
        ∃ around ∈ outer, Ty.formal id boxed ∈ around.parts := by
  simp [mem_parts_applied]

theorem formal_mem_parts_asThis {id : FormalId} {ty : Ty} :
    Ty.formal id boxed ∈ ty.asThis.parts ↔ Ty.formal id boxed ∈ ty.parts := by
  cases ty with
  | applied feature args outer isRef isThis =>
    rw [asThis, formal_mem_parts_applied, formal_mem_parts_applied]
  | _ => rfl

/-- The formal of `companion` for the type at hand occurs in the type. -/
def MentionsThisOf (ty : Ty) (companion : FeatureId) : Prop :=
  ∃ boxed, Ty.formal ⟨companion, 0⟩ boxed ∈ ty.parts

end Ty

namespace FeatureTable

variable {table : FeatureTable}

theorem IsIn.unique {id outer outer' : FeatureId} (isIn : table.IsIn id outer)
    (isIn' : table.IsIn id outer') : outer = outer' := by
  obtain ⟨declared, found, isOuter⟩ := isIn
  obtain ⟨declared', found', isOuter'⟩ := isIn'
  obtain rfl := Except.ok.inj (found.symm.trans found')
  exact Option.some.inj (isOuter.symm.trans isOuter')

section

variable (lawful : table.Lawful)

include lawful

theorem Lawful.ne_universe_of_isIn {id outer : FeatureId} (isIn : table.IsIn id outer) :
    id ≠ .universe := by
  obtain ⟨declared, found, isOuter⟩ := isIn
  rw [ne_eq, ← lawful.outer_eq_none_iff id declared found, isOuter]
  exact Option.some_ne_none outer

theorem Lawful.eq_universe_of_around {around : FeatureId}
    (path : Relation.ReflTransGen table.IsIn .universe around) : around = .universe := by
  rcases Relation.ReflTransGen.cases_head path with isSelf | ⟨outer, isIn, _⟩
  · exact isSelf.symm
  · exact absurd rfl (lawful.ne_universe_of_isIn isIn)

theorem Lawful.declares_of_mem {feature : FeatureId} {formal : FormalId}
    (member : formal ∈ (table.formalsOf feature).map Formal.id) :
    formal.feature = feature ∧ ∃ declared, table.get feature = .ok declared := by
  cases found : table.get feature with
  | error failure => simp [formalsOf, found, Except.toOption] at member
  | ok declared =>
    rw [formalsOf_eq found] at member
    obtain ⟨entry, inFormals, rfl⟩ := List.mem_map.mp member
    obtain ⟨position, present⟩ := List.mem_iff_getElem?.mp inFormals
    rw [(lawful.numbered feature declared found position entry present).1]
    exact ⟨rfl, declared, rfl⟩

/-- The formals in the type are of declared features. -/
def DeclaresFormals (table : FeatureTable) (ty : Ty) : Prop :=
  ∀ id boxed, .formal id boxed ∈ ty.parts → ∃ declared, table.get id.feature = .ok declared

/-- Every companion has a formal for the type at hand. -/
def ThisFormals (table : FeatureTable) : Prop :=
  ∀ companion, table.originOf companion ≠ none → table.formalsOf companion ≠ []

/-- A formal for the type at hand stands in the type for a feature that lies, directly or
not, in `companion`. -/
def BringsThisOf (table : FeatureTable) (ty : Ty) (companion : FeatureId) : Prop :=
  ∃ mentioned origin, ty.MentionsThisOf mentioned ∧ table.originOf mentioned = some origin ∧
    Relation.TransGen table.IsIn origin companion

theorem Lawful.companion_ne_universe (isCompanion : table.originOf companion ≠ none) :
    companion ≠ .universe := by
  obtain ⟨origin, isOrigin⟩ := Option.ne_none_iff_exists'.mp isCompanion
  have linked := (lawful.companion_iff origin companion).mpr isOrigin
  obtain ⟨declared, found, _⟩ := exists_of_companionOf linked
  have inner : origin ≠ .universe := by
    rintro rfl
    rw [lawful.companion_universe] at linked
    cases linked
  cases isOuter : declared.outer with
  | none => exact absurd ((lawful.outer_eq_none_iff origin declared found).mp isOuter) inner
  | some outer =>
    obtain ⟨around, isAround, _⟩ := lawful.companion_outer origin companion outer linked
      ((outerOf_eq found).trans isOuter)
    exact lawful.ne_universe_of_isIn (exists_of_outerOf isAround)

theorem Lawful.originOf_origin {origin : FeatureId}
    (isOrigin : table.originOf companion = some origin) : table.originOf origin = none := by
  by_contra isCompanion
  have unlinked := lawful.companion_companion origin isCompanion
  rw [(lawful.companion_iff origin companion).mpr isOrigin] at unlinked
  cases unlinked

end

theorem ThisFormals.mem (thisFormals : table.ThisFormals) (lawful : table.Lawful)
    (isCompanion : table.originOf companion ≠ none) :
    ⟨companion, 0⟩ ∈ (table.formalsOf companion).map Formal.id := by
  obtain ⟨origin, isOrigin⟩ := Option.ne_none_iff_exists'.mp isCompanion
  obtain ⟨declared, found, _⟩ := exists_of_originOf isOrigin
  obtain ⟨this, others, formalsEq⟩ := List.exists_cons_of_ne_nil (thisFormals companion isCompanion)
  have numbered := lawful.numbered companion declared found 0 this
    (by rw [← formalsOf_eq found, formalsEq]; rfl)
  rw [formalsEq, List.map_cons, numbered.1]
  exact List.mem_cons_self

end FeatureTable

namespace Signature

variable {signature : Signature}

/-! ## What takes the place of formals -/

theorem exists_replaced_of_mem {ty plain : Ty} (dropped : signature.dropThisFormals ty = some plain)
    {id : FormalId} (occurs : .formal id boxed ∈ plain.parts) :
    ∃ id' boxed' replaced, .formal id' boxed' ∈ ty.parts ∧
      signature.dropThisFormal id' boxed' = some replaced ∧ .formal id boxed ∈ replaced.parts := by
  induction ty generalizing plain with
  | formal id' boxed' =>
    rw [dropThisFormals_formal] at dropped
    exact ⟨id', boxed', plain, Ty.self_mem_parts _, dropped, occurs⟩
  | applied feature args outer isRef isThis argsReplaced outerReplaced =>
    obtain ⟨args', outer', argsEq, outerEq, rfl⟩ := dropThisFormals_applied dropped
    rcases Ty.formal_mem_parts_applied.mp occurs with ⟨arg', member', inArg⟩ |
      ⟨around', present, inOuter⟩
    · obtain ⟨arg, member, argEq⟩ := exists_of_mem_mapM argsEq member'
      obtain ⟨id', boxed', replaced, occurs', replacedEq, inReplaced⟩ :=
        argsReplaced arg member argEq inArg
      exact ⟨id', boxed', replaced, Ty.mem_parts_of_mem_args member occurs', replacedEq,
        inReplaced⟩
    · rw [Option.mem_def] at present
      subst present
      cases optionMapM_eq_some_iff.mp outerEq with
      | @some around _ aroundEq =>
        obtain ⟨id', boxed', replaced, occurs', replacedEq, inReplaced⟩ :=
          outerReplaced around rfl aroundEq inOuter
        exact ⟨id', boxed', replaced, Ty.mem_parts_of_outer occurs', replacedEq, inReplaced⟩
  | _ =>
    obtain rfl := Option.some.inj dropped
    simp [Ty.parts] at occurs

theorem exists_replaced_of_dropped {ty plain : Ty}
    (dropped : signature.dropThisFormals ty = some plain) {id : FormalId}
    (occurs : .formal id boxed ∈ ty.parts) :
    ∃ replaced, signature.dropThisFormal id boxed = some replaced ∧
      replaced.parts ⊆ plain.parts := by
  induction ty generalizing plain with
  | formal id' boxed' =>
    obtain ⟨rfl, rfl⟩ := Ty.formal_mem_parts_formal.mp occurs
    rw [dropThisFormals_formal] at dropped
    exact ⟨plain, dropped, List.Subset.refl _⟩
  | applied feature args outer isRef isThis argsReplaced outerReplaced =>
    obtain ⟨args', outer', argsEq, outerEq, rfl⟩ := dropThisFormals_applied dropped
    rcases Ty.formal_mem_parts_applied.mp occurs with ⟨arg, member, inArg⟩ |
      ⟨around, present, inOuter⟩
    · obtain ⟨arg', member', argEq⟩ := exists_mem_of_mapM argsEq member
      obtain ⟨replaced, replacedEq, inside⟩ := argsReplaced arg member argEq inArg
      exact ⟨replaced, replacedEq, fun part inReplaced =>
        Ty.mem_parts_of_mem_args member' (inside inReplaced)⟩
    · rw [Option.mem_def] at present
      subst present
      cases optionMapM_eq_some_iff.mp outerEq with
      | some aroundEq =>
        obtain ⟨replaced, replacedEq, inside⟩ := outerReplaced around rfl aroundEq inOuter
        exact ⟨replaced, replacedEq, fun part inReplaced =>
          Ty.mem_parts_of_outer (inside inReplaced)⟩
  | _ => simp [Ty.parts] at occurs

theorem keeps_of_dropThisFormals_eq_self {ty : Ty}
    (unchanged : signature.dropThisFormals ty = some ty) : signature.Keeps ty := by
  induction ty with
  | formal id boxed =>
    intro id' boxed' occurs
    obtain ⟨rfl, rfl⟩ := Ty.formal_mem_parts_formal.mp occurs
    rwa [dropThisFormals_formal] at unchanged
  | applied feature args outer isRef isThis argsKeep outerKeeps =>
    obtain ⟨args', outer', argsEq, outerEq, same⟩ := dropThisFormals_applied unchanged
    obtain ⟨rfl, rfl⟩ : args = args' ∧ outer = outer' := by simpa using same
    apply keeps_applied
    · intro arg member
      exact argsKeep arg member (List.forall₂_same.mp (mapM_eq_some_iff.mp argsEq) arg member)
    · intro around present
      rw [Option.mem_def] at present
      subst present
      cases optionMapM_eq_some_iff.mp outerEq with
      | some aroundEq => exact outerKeeps around rfl aroundEq
  | _ =>
    intro id boxed occurs
    simp [Ty.parts] at occurs

end Signature

namespace Checker

variable {checker : Checker}

/-! ## Self types -/

theorem outerTypeBy_cases (lawful : checker.features.Lawful) {typeOf : FeatureId → Option Ty}
    {id : FeatureId} {outer : Option Ty}
    (outerEq : checker.signature.outerTypeBy typeOf id = some outer) :
    (outer = none ∧ ∀ next, checker.features.IsIn id next → next = .universe) ∨
      ∃ next ty, checker.features.IsIn id next ∧ next ≠ .universe ∧ typeOf next = some ty ∧
        outer = some ty := by
  obtain ⟨outline, isOutline, outerEq⟩ := Option.bind_eq_some_iff.mp outerEq
  obtain ⟨declared, found, rfl⟩ := signature_feature_eq_some_iff.mp isOutline
  have isIn_iff : ∀ next, checker.features.IsIn id next ↔ declared.outer = some next := by
    intro next
    simp [FeatureTable.IsIn, found]
  simp only [isIn_iff]
  cases isOuter : declared.outer with
  | none => exact Or.inl ⟨by simpa [Feature.outline, isOuter] using outerEq.symm, by simp⟩
  | some next =>
    simp only [Feature.outline, isOuter] at outerEq
    obtain ⟨outline', isOutline', outerEq⟩ := Option.bind_eq_some_iff.mp outerEq
    obtain ⟨around, foundAround, rfl⟩ := signature_feature_eq_some_iff.mp isOutline'
    have universe_iff : (around.outline checker.types.tree).outer.isNone = true ↔
        next = .universe :=
      Option.isNone_iff_eq_none.trans (lawful.outer_eq_none_iff next around foundAround)
    by_cases isUniverse : next = .universe
    · rw [if_pos (universe_iff.mpr isUniverse)] at outerEq
      refine Or.inl ⟨(Option.some.inj outerEq).symm, fun next' isNext => ?_⟩
      rw [← Option.some.inj isNext, isUniverse]
    · rw [if_neg fun outermost => isUniverse (universe_iff.mp outermost)] at outerEq
      obtain ⟨ty, tyEq, outerEq⟩ := Option.bind_eq_some_iff.mp outerEq
      exact Or.inr ⟨next, ty, rfl, isUniverse, tyEq, (Option.some.inj outerEq).symm⟩

/-- From inside, the type of a feature mentions its formals and those around it. -/
theorem formal_mem_parts_selfTypeWithin (lawful : checker.features.Lawful) {depth : Nat}
    {id : FeatureId} {self : Ty} (selfEq : checker.signature.selfTypeWithin depth id = some self)
    {formal : FormalId} :
    .formal formal boxed ∈ self.parts ↔ boxed = false ∧ ∃ around,
      Relation.ReflTransGen checker.features.IsIn id around ∧
        (around = .universe → id = .universe) ∧
          formal ∈ (checker.features.formalsOf around).map Formal.id := by
  induction depth generalizing id self with
  | zero => cases selfEq
  | succ depth ih =>
    obtain ⟨outline, isOutline, selfEq⟩ := Option.bind_eq_some_iff.mp selfEq
    obtain ⟨outer, outerEq, selfEq⟩ := Option.bind_eq_some_iff.mp selfEq
    obtain rfl := Option.some.inj selfEq
    obtain ⟨declared, found, rfl⟩ := signature_feature_eq_some_iff.mp isOutline
    have inArgs : (∃ arg ∈ (declared.outline checker.types.tree).formals.map fun formal =>
        Ty.formal formal.id false, .formal formal boxed ∈ arg.parts) ↔
          boxed = false ∧ formal ∈ (checker.features.formalsOf id).map Formal.id := by
      rw [FeatureTable.formalsOf_eq found]
      simp only [Feature.outline, List.map_map, List.mem_map, exists_exists_and_eq_and,
        Function.comp_def, Ty.formal_mem_parts_formal]
      grind
    have inOuter : (∃ aroundType ∈ outer, .formal formal boxed ∈ aroundType.parts) ↔
        boxed = false ∧ ∃ around, (∃ next, checker.features.IsIn id next ∧
          Relation.ReflTransGen checker.features.IsIn next around) ∧
            (around = .universe → id = .universe) ∧
              formal ∈ (checker.features.formalsOf around).map Formal.id := by
      rcases outerTypeBy_cases lawful outerEq with ⟨rfl, outermost⟩ |
        ⟨next, ty, isIn, inner, tyEq, rfl⟩
      · constructor
        · rintro ⟨_, missing, _⟩
          cases missing
        · rintro ⟨_, around, ⟨next, isIn, path⟩, onlyUniverse, _⟩
          rw [outermost next isIn] at path
          exact absurd (onlyUniverse (lawful.eq_universe_of_around path))
            (lawful.ne_universe_of_isIn isIn)
      · have isNext : ∀ next', checker.features.IsIn id next' ↔ next' = next :=
          fun next' => ⟨fun isIn' => isIn'.unique isIn, fun same => same ▸ isIn⟩
        simp only [Option.mem_some_iff, exists_eq_left', ih tyEq, isNext,
          exists_eq_left, inner, lawful.ne_universe_of_isIn isIn]
    rw [Ty.formal_mem_parts_applied, inArgs, inOuter, ← and_or_left]
    refine and_congr_right fun _ => ?_
    simp only [Relation.ReflTransGen.cases_head_iff (a := id), or_and_right, exists_or,
      exists_eq_left', imp_self, true_and]

/-! ## What dropping leaves behind -/

theorem replaced_cases {id : FormalId} {replaced : Ty}
    (replacedEq : checker.signature.dropThisFormal id boxed = some replaced) :
    (replaced = .formal id boxed ∧ (id.index = 0 → checker.features.originOf id.feature = none)) ∨
      id.index = 0 ∧ ∃ origin self, checker.features.originOf id.feature = some origin ∧
        checker.signature.selfType origin = some self ∧ replaced = self.asThis := by
  by_cases first : id.index = 0
  · rw [Signature.dropThisFormal, if_neg (by simp [first])] at replacedEq
    obtain ⟨outline, isOutline, replacedEq⟩ := Option.bind_eq_some_iff.mp replacedEq
    obtain ⟨declared, found, rfl⟩ := signature_feature_eq_some_iff.mp isOutline
    rw [FeatureTable.originOf_eq found]
    cases isOrigin : declared.origin with
    | none =>
      simp only [Feature.outline, isOrigin] at replacedEq
      exact Or.inl ⟨(Option.some.inj replacedEq).symm, fun _ => rfl⟩
    | some origin =>
      simp only [Feature.outline, isOrigin] at replacedEq
      obtain ⟨self, selfEq, replacedEq⟩ := Option.bind_eq_some_iff.mp replacedEq
      exact Or.inr ⟨first, origin, self, rfl, selfEq, (Option.some.inj replacedEq).symm⟩
  · rw [Signature.dropThisFormal, if_pos first] at replacedEq
    exact Or.inl ⟨(Option.some.inj replacedEq).symm, fun isFirst => absurd isFirst first⟩

section

variable (lawful : checker.features.Lawful) {ty plain : Ty}

include lawful

/-- No undeclared formal comes in. -/
theorem declaresFormals_dropped (declares : checker.features.DeclaresFormals ty)
    (dropped : checker.signature.dropThisFormals ty = some plain) :
    checker.features.DeclaresFormals plain := by
  intro id boxed occurs
  obtain ⟨id', boxed', replaced, occurs', replacedEq, inReplaced⟩ :=
    Signature.exists_replaced_of_mem dropped occurs
  rcases replaced_cases replacedEq with ⟨rfl, _⟩ | ⟨_, origin, self, _, selfEq, rfl⟩
  · obtain ⟨rfl, rfl⟩ := Ty.formal_mem_parts_formal.mp inReplaced
    exact declares id boxed occurs'
  · rw [Ty.formal_mem_parts_asThis, formal_mem_parts_selfTypeWithin lawful selfEq] at inReplaced
    obtain ⟨_, around, _, _, member⟩ := inReplaced
    obtain ⟨rfl, isDeclared⟩ := lawful.declares_of_mem member
    exact isDeclared

/-- A formal for the type at hand is left just if a feature in a companion brings it. -/
theorem mentionsThisOf_dropped (thisFormals : checker.features.ThisFormals)
    (dropped : checker.signature.dropThisFormals ty = some plain)
    (isCompanion : checker.features.originOf companion ≠ none) :
    plain.MentionsThisOf companion ↔ checker.features.BringsThisOf ty companion := by
  constructor
  · rintro ⟨boxed, occurs⟩
    obtain ⟨id, boxed', replaced, occurs', replacedEq, inReplaced⟩ :=
      Signature.exists_replaced_of_mem dropped occurs
    rcases replaced_cases replacedEq with ⟨rfl, plainFirst⟩ |
      ⟨first, origin, self, isOrigin, selfEq, rfl⟩
    · obtain ⟨rfl, rfl⟩ := Ty.formal_mem_parts_formal.mp inReplaced
      exact absurd (plainFirst rfl) isCompanion
    · rw [Ty.formal_mem_parts_asThis, formal_mem_parts_selfTypeWithin lawful selfEq] at inReplaced
      obtain ⟨_, around, path, _, member⟩ := inReplaced
      obtain ⟨rfl, _⟩ := lawful.declares_of_mem member
      obtain ⟨mentioned, position⟩ := id
      obtain rfl : position = 0 := first
      refine ⟨mentioned, origin, ⟨boxed', occurs'⟩, isOrigin, ?_⟩
      rcases Relation.reflTransGen_iff_eq_or_transGen.mp path with isSelf | path
      · exact absurd (lawful.originOf_origin isOrigin) (isSelf ▸ isCompanion)
      · exact path
  · rintro ⟨mentioned, origin, ⟨boxed, occurs⟩, isOrigin, path⟩
    obtain ⟨replaced, replacedEq, inside⟩ := Signature.exists_replaced_of_dropped dropped occurs
    rcases replaced_cases replacedEq with ⟨_, plainFirst⟩ |
      ⟨_, origin', self, isOrigin', selfEq, rfl⟩
    · rw [plainFirst rfl] at isOrigin
      cases isOrigin
    · obtain rfl := Option.some.inj (isOrigin.symm.trans isOrigin')
      refine ⟨false, inside ?_⟩
      rw [Ty.formal_mem_parts_asThis, formal_mem_parts_selfTypeWithin lawful selfEq]
      exact ⟨rfl, companion, path.to_reflTransGen, fun isUniverse =>
        absurd isUniverse (lawful.companion_ne_universe isCompanion),
        thisFormals.mem lawful isCompanion⟩

end

/-- Nothing is dropped just if there is nothing to drop. -/
theorem dropThisFormals_eq_self_iff {ty : Ty} (declares : checker.features.DeclaresFormals ty) :
    checker.signature.dropThisFormals ty = some ty ↔
      ∀ companion, checker.features.originOf companion ≠ none → ¬ty.MentionsThisOf companion := by
  constructor
  · rintro unchanged companion isCompanion ⟨boxed, occurs⟩
    have kept := Signature.keeps_of_dropThisFormals_eq_self unchanged _ _ occurs
    rcases replaced_cases kept with ⟨_, plainFirst⟩ | ⟨_, origin, self, _, selfEq, isSelf⟩
    · exact isCompanion (plainFirst rfl)
    · obtain ⟨args, outer, isRef, rfl⟩ := Signature.selfType_eq_applied selfEq
      cases isSelf
  · intro unmentioned
    apply Signature.Keeps.dropThisFormals
    intro id boxed occurs
    obtain ⟨declared, found⟩ := declares id boxed occurs
    by_cases first : id.index = 0
    · have isPlain : declared.origin = none := by
        by_contra isCompanion
        rw [← FeatureTable.originOf_eq found] at isCompanion
        exact unmentioned id.feature isCompanion ⟨boxed, first ▸ occurs⟩
      simp [Signature.dropThisFormal, first, checker.follows_signature.feature_eq _ _ found,
        Feature.outline, isPlain]
    · simp [Signature.dropThisFormal, first]

end Checker

end FeatureTypes

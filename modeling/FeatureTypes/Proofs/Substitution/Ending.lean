import FeatureTypes.Proofs.Checker.Ending
import FeatureTypes.Proofs.Meaning.SelfFormals
import FeatureTypes.Proofs.Substitution.Filled

/-!
# Substitutions that come to an end

If the inheritance graph has no cycles and the actuals of every parent are made of formals
of the heir, then substitutions come to an end, for whatever types and actuals.
-/

namespace FeatureTypes

/-! ## The formals of a type -/

namespace Ty

variable {formals : FormalId → Prop}

theorem among_formal_iff {id : FormalId} {boxed : Bool} :
    (Ty.formal id boxed).Among formals (fun _ => True) ↔ formals id := by
  simp [Among, RootAmong, parts]

theorem among_applied_iff {feature : FeatureId} {args : List Ty} {outer : Option Ty}
    {isRef isThis : Bool} :
    (Ty.applied feature args outer isRef isThis).Among formals (fun _ => True) ↔
      (∀ arg ∈ args, arg.Among formals fun _ => True) ∧
        ∀ around, outer = some around → around.Among formals fun _ => True := by
  constructor
  · intro among
    refine ⟨fun arg member part occurs => ?_, fun around present part occurs => ?_⟩
    · exact among part (mem_parts_of_mem_args member occurs)
    · subst present
      exact among part (mem_parts_of_outer occurs)
  · rintro ⟨argsAmong, outerAmong⟩ part occurs
    rcases mem_parts_applied.mp occurs with rfl | ⟨arg, member, inArg⟩ | ⟨around, present, inOuter⟩
    · exact trivial
    · exact argsAmong arg member part inArg
    · exact outerAmong around present part inOuter

theorem Among.asRef {ty : Ty} (among : ty.Among formals fun _ => True) :
    ty.asRef.Among formals fun _ => True := by
  cases ty with
  | formal id boxed => exact among_formal_iff.mpr (among_formal_iff.mp among)
  | applied feature args outer isRef isThis =>
    exact among_applied_iff.mpr (among_applied_iff.mp among)
  | _ => exact among

theorem among_of_forall (all : ∀ id, formals id) (ty : Ty) : ty.Among formals fun _ => True := by
  intro part _
  cases part with
  | formal id boxed => exact all id
  | _ => exact trivial

theorem among_of_closed {ty : Ty} (closed : ty.mentionsFormal = false) :
    ty.Among formals fun _ => True := by
  rw [mentionsFormal, List.any_eq_false] at closed
  intro part occurs
  cases part with
  | formal id boxed => exact absurd rfl (closed _ occurs)
  | _ => exact trivial

theorem among_error : Ty.error.Among formals fun _ => True :=
  among_of_closed rfl

/-- The type applies a feature, and so do its outer types, as far as they could be typed. -/
inductive Anchored : Ty → Prop
  | error : Anchored .error
  | applied {feature : FeatureId} {args : List Ty} {outer : Option Ty} {isRef isThis : Bool}
      (around : ∀ ty, outer = some ty → Anchored ty) :
      Anchored (.applied feature args outer isRef isThis)

end Ty

/-- The type is stored, and its formals are among `formals`. -/
structure TypeStore.Confined (types : TypeStore) (formals : FormalId → Prop) (id : TypeId) :
    Prop where
  held : types.Holds id
  among : (types.tree id).Among formals fun _ => True

instance {types : TypeStore} {formals : FormalId → Prop} [DecidablePred formals] {id : TypeId} :
    Decidable (types.Confined formals id) :=
  decidable_of_iff (types.Holds id ∧ (types.tree id).Among formals fun _ => True)
    ⟨fun ⟨held, among⟩ => ⟨held, among⟩, fun confined => ⟨confined.held, confined.among⟩⟩

/-! ## Features above one another -/

/-- A table without companions whose inheritance graph has no cycles, and in which every
parent has fitting actuals that are made of formals of the heir. -/
structure FeatureTable.Stratified (table : FeatureTable) (types : TypeStore) : Prop where
  acyclic : table.Acyclic
  not_companion : ∀ id declared, table.get id = .ok declared → declared.isCompanion = false
  accepted : ∀ id declared, table.get id = .ok declared → ∀ parent ∈ declared.parents,
    table.Accepts parent.ancestor parent.actuals.length
  actuals_own : ∀ id declared, table.get id = .ok declared → ∀ parent ∈ declared.parents,
    ∀ actual ∈ parent.actuals, types.Confined (·.feature = id) actual

namespace FeatureTable

variable {table : FeatureTable} {owner : FeatureId} {id : FormalId} {parent : Parent}

theorem Stratified.spares_own {types : TypeStore} (stratified : table.Stratified types)
    (member : parent ∈ (table.entry owner).parents) (own : id.feature = owner) :
    table.Spares parent.ancestor id := by
  intro inherits
  rw [own] at inherits
  exact stratified.acyclic owner (.head' (hasParent_of_mem member) inherits)

theorem spares_of_parents (foreign : id.feature ≠ owner)
    (spared : ∀ parent ∈ (table.entry owner).parents, table.Spares parent.ancestor id) :
    table.Spares owner id := by
  intro inherits
  rcases Relation.ReflTransGen.cases_head inherits with same | ⟨ancestor, hasParent, path⟩
  · exact foreign same.symm
  · obtain ⟨declared, found, parent, member, rfl⟩ := hasParent
    exact spared parent (by rwa [entry_eq found]) path

end FeatureTable

namespace Checker

variable {start : Checker} {owner : FeatureId} {wanted : FormalId → Prop} {actuals : List Ty}
  {target ty : Ty}

/-! ## What a substitution makes of a type -/

/-- The formals of the result are as wanted, and where the target is anchored or has no
formals to be replaced, the result is alike. -/
structure Substituted (table : FeatureTable) (owner : FeatureId) (actuals : List Ty)
    (wanted : FormalId → Prop) (target result : Ty) : Prop where
  among : result.Among wanted fun _ => True
  anchored : target.Anchored → result.Anchored
  same : table.Accepts owner actuals.length →
    target.Among (table.Spares owner) (fun _ => True) → result = target

/-- Substitutions through `owner` in the target come to an end, and have the wanted formals
if the actuals and the formals that are not replaced are wanted. -/
def EndsFor (start : Checker) (owner : FeatureId) (target : Ty) : Prop :=
  ∀ (wanted : FormalId → Prop) (actuals : List Ty),
    (∀ actual ∈ actuals, actual.Among wanted fun _ => True) →
      target.Among (fun id => start.features.Spares owner id → wanted id) (fun _ => True) →
        ∃ result, start.completed.substitute owner actuals target = some result ∧
          Substituted start.features owner actuals wanted target result

/-! ## Lists -/

variable (start) in
theorem exists_trailingOpen? (owner : FeatureId) (ty : Ty) (rest : List Ty) :
    ∃ position, start.completed.trailingOpen? owner ty rest = some position ∧
      (position ≠ none → ∃ id boxed, ty = .formal id boxed ∧ id.feature = owner) := by
  unfold Signature.trailingOpen?
  split
  next id boxed =>
    split
    · exact ⟨none, rfl, by simp⟩
    next own =>
      simp only [Signature.formal?, completed_feature, Option.bind_eq_bind, Option.bind_some,
        Option.pure_def]
      split <;> exact ⟨_, rfl, fun _ => ⟨id, boxed, rfl, of_not_not own⟩⟩
  next => exact ⟨none, rfl, by simp⟩

section

variable (actualsAmong : ∀ actual ∈ actuals, actual.Among wanted fun _ => True) {list : List Ty}
  (among : ∀ item ∈ list,
    item.Among (fun id => start.features.Spares owner id → wanted id) fun _ => True)
  (each : ∀ item ∈ list, start.EndsFor owner item)

include actualsAmong among each

theorem exists_substituteEach :
    ∃ results, start.completed.substituteEach start.completed.substitute owner actuals list =
      some results ∧ (∀ result ∈ results, result.Among wanted fun _ => True) ∧
        (start.features.Accepts owner actuals.length →
          (∀ item ∈ list, item.Among (start.features.Spares owner) fun _ => True) →
            results = list) := by
  induction list with
  | nil => exact ⟨[], rfl, by simp, fun _ _ => rfl⟩
  | cons item rest ih =>
    rw [List.forall_mem_cons] at among each
    obtain ⟨position, isPosition, own⟩ := exists_trailingOpen? start owner item rest
    rw [Signature.substituteEach, isPosition]
    cases position with
    | some position =>
      refine ⟨_, rfl, fun result member =>
        actualsAmong result (List.mem_of_mem_drop member), fun _ spared => ?_⟩
      obtain ⟨id, boxed, rfl, belongs⟩ := own (by simp)
      exact absurd belongs
        (Ty.among_formal_iff.mp (spared _ List.mem_cons_self) : start.features.Spares _ _).foreign
    | none =>
      obtain ⟨first, isFirst, substituted⟩ := each.1 wanted actuals actualsAmong among.1
      obtain ⟨others, areOthers, othersAmong, othersSame⟩ := ih among.2 each.2
      refine ⟨first :: others, ?_, List.forall_mem_cons.mpr ⟨substituted.among, othersAmong⟩, ?_⟩
      · simp [isFirst, areOthers]
      · intro accepts spared
        rw [List.forall_mem_cons] at spared
        rw [substituted.same accepts spared.1, othersSame accepts spared.2]

theorem exists_substituteList (wellFormed : start.WellFormed) :
    ∃ results, start.completed.substituteList start.completed.substitute owner actuals list =
      some results ∧ (∀ result ∈ results, result.Among wanted fun _ => True) ∧
        (start.features.Accepts owner actuals.length →
          (∀ item ∈ list, item.Among (start.features.Spares owner) fun _ => True) →
            results = list) := by
  rw [Signature.substituteList]
  simp only [completed_feature, Option.bind_eq_bind, Option.bind_some]
  split
  next isFormals =>
    refine ⟨actuals, rfl, actualsAmong, ?_⟩
    rintro ⟨declared, found, accepts⟩ spared
    rw [FeatureTable.entry_eq found] at isFormals
    cases formals : declared.formals with
    | nil =>
      have counted := Feature.eq_length_of_accepts accepts (by simp [Feature.endsOpen, formals])
      rw [formals, List.length_nil, List.length_eq_zero_iff] at counted
      rw [isFormals, counted, Feature.outline, formals]
      rfl
    | cons formal others =>
      have idEq := (wellFormed.features_wellFormed owner declared found).formal_id 0 formal
        (by rw [formals]; rfl)
      have member : Ty.formal formal.id false ∈ list := by
        rw [isFormals, Feature.outline, formals]
        exact List.mem_cons_self
      exact absurd (congrArg FormalId.feature idEq)
        (Ty.among_formal_iff.mp (spared _ member) : start.features.Spares _ _).foreign
  next => exact exists_substituteEach actualsAmong among each

end

/-! ## One step -/

/-- What is left to be done with a formal once the parents are through: they spare it, and it
is wanted if `owner` spares it. -/
def Remains (table : FeatureTable) (owner : FeatureId) (wanted : FormalId → Prop)
    (id : FormalId) : Prop :=
  (∀ parent ∈ (table.entry owner).parents, table.Spares parent.ancestor id) ∧
    (table.Spares owner id → wanted id)

section

variable (actualsAmong : ∀ actual ∈ actuals, actual.Among wanted fun _ => True)

include actualsAmong

theorem exists_substituteFormal {id : FormalId} (boxed : Bool)
    (remains : Remains start.features owner wanted id) :
    ∃ result, start.completed.substituteFormal owner actuals id boxed = some result ∧
      Substituted start.features owner actuals wanted (.formal id boxed) result := by
  rw [Signature.substituteFormal]
  split
  next foreign =>
    have keep := remains.2 (FeatureTable.spares_of_parents foreign remains.1)
    exact ⟨_, rfl, Ty.among_formal_iff.mpr keep, fun anchored => anchored, fun _ _ => rfl⟩
  next own =>
    have replaced : ∀ {result : Ty}, (result.Among wanted fun _ => True) →
        Substituted start.features owner actuals wanted (.formal id boxed) result := fun among =>
      ⟨among, fun anchored => (by cases anchored), fun _ spared =>
        absurd (of_not_not own) (Ty.among_formal_iff.mp spared : start.features.Spares _ _).foreign⟩
    simp only [Signature.formal?, completed_feature, Option.bind_eq_bind, Option.bind_some,
      Option.pure_def]
    split
    · exact ⟨_, rfl, replaced Ty.among_error⟩
    · have actualAmong : (actuals[id.index]?.getD .error).Among wanted fun _ => True := by
        cases present : actuals[id.index]? with
        | none => exact Ty.among_error
        | some actual => exact actualsAmong actual (List.mem_of_getElem? present)
      refine ⟨_, rfl, replaced ?_⟩
      cases boxed with
      | false => exact actualAmong
      | true => exact actualAmong.asRef

theorem exists_substituteParts (stratified : start.features.Stratified start.types)
    (wellFormed : start.WellFormed) {feature : FeatureId} {args : List Ty} {outer : Option Ty}
    {isRef isThis : Bool}
    (remains : (Ty.applied feature args outer isRef isThis).Among
      (Remains start.features owner wanted) fun _ => True)
    (fromParts : ∀ child ∈ (Ty.applied feature args outer isRef isThis).children,
      start.EndsFor owner child) :
    ∃ newArgs newOuter settled,
      start.completed.substituteList start.completed.substitute owner actuals args =
        some newArgs ∧
      outer.mapM (start.completed.substitute owner actuals) = some newOuter ∧
      start.completed.settleArgs start.completed.substitute feature newArgs = some settled ∧
      Substituted start.features owner actuals wanted (.applied feature args outer isRef isThis)
        (Signature.rebuild (.applied feature args outer isRef isThis) settled newOuter) := by
  obtain ⟨argsRemain, outerRemains⟩ := Ty.among_applied_iff.mp remains
  obtain ⟨newArgs, areNewArgs, argsAmong, argsSame⟩ := exists_substituteList actualsAmong
    (fun arg member => (argsRemain arg member).mono fun _ => And.right)
    (fun arg member => fromParts arg (List.mem_append_left _ member)) wellFormed
  obtain ⟨newOuter, isNewOuter, outerSubstituted⟩ : ∃ newOuter,
      outer.mapM (start.completed.substitute owner actuals) = some newOuter ∧
        Option.Rel (Substituted start.features owner actuals wanted) outer newOuter := by
    cases outer with
    | none => exact ⟨none, rfl, .none⟩
    | some around =>
      obtain ⟨result, isResult, substituted⟩ := fromParts around (by simp [Ty.children]) wanted
        actuals actualsAmong ((outerRemains around rfl).mono fun _ => And.right)
      exact ⟨some result, by simp [Option.mapM_some, isResult], .some substituted⟩
  have settles : start.completed.settleArgs start.completed.substitute feature newArgs =
      some newArgs := by
    have plain : (start.features.entry feature).origin = none := by
      cases found : start.features.get feature with
      | error failure => simp [FeatureTable.entry, found, Except.toOption]
      | ok declared =>
        rw [FeatureTable.entry_eq found]
        simpa [Feature.isCompanion] using stratified.not_companion feature declared found
    simp [Signature.settleArgs, completed_feature, Feature.outline, plain]
  refine ⟨newArgs, newOuter, newArgs, areNewArgs, isNewOuter, settles, ?_⟩
  have allSame : start.features.Accepts owner actuals.length →
      (Ty.applied feature args outer isRef isThis).Among (start.features.Spares owner)
        (fun _ => True) → newArgs = args ∧ newOuter = outer := by
    intro accepts spared
    obtain ⟨argsSpared, outerSpared⟩ := Ty.among_applied_iff.mp spared
    refine ⟨argsSame accepts argsSpared, ?_⟩
    cases outerSubstituted with
    | none => rfl
    | some substituted => rw [substituted.same accepts (outerSpared _ rfl)]
  have outerAmong : ∀ around, newOuter = some around → around.Among wanted fun _ => True := by
    rintro around rfl
    cases outerSubstituted with
    | some substituted => exact substituted.among
  rw [Signature.rebuild]
  split
  next unchanged =>
    obtain ⟨rfl, rfl⟩ := unchanged
    exact ⟨Ty.among_applied_iff.mpr ⟨argsAmong, outerAmong⟩, id, fun _ _ => rfl⟩
  next changed =>
    have notSame : ∀ {result : Ty}, start.features.Accepts owner actuals.length →
        (Ty.applied feature args outer isRef isThis).Among (start.features.Spares owner)
          (fun _ => True) → result = Ty.applied feature args outer isRef isThis :=
      fun accepts spared => absurd (allSame accepts spared) changed
    split
    · exact ⟨Ty.among_error, fun _ => .error, notSame⟩
    · refine ⟨Ty.among_applied_iff.mpr ⟨argsAmong, outerAmong⟩, fun anchored => ?_, notSame⟩
      refine .applied fun around present => ?_
      cases anchored with
      | applied enclosed =>
        subst present
        cases outerSubstituted with
        | some substituted => exact substituted.anchored (enclosed _ rfl)

end

/-- What the parents of a feature make of a type: of the formals they leave only those that
remain, and they hand back a type whose formals they all spare. -/
structure Resolved (table : FeatureTable) (owner : FeatureId) (wanted : FormalId → Prop)
    (target ty : Ty) : Prop where
  remains : ty.Among (Remains table owner wanted) fun _ => True
  anchored : target.Anchored → ty.Anchored
  same : target.Among (fun id => ∀ parent ∈ (table.entry owner).parents,
    table.Spares parent.ancestor id) (fun _ => True) → ty = target

section

variable (stratified : start.features.Stratified start.types)
  (fromAncestors : ∀ ancestor, start.features.HasParent owner ancestor → ∀ ty,
    start.EndsFor ancestor ty)
  (among : target.Among (fun id => start.features.Spares owner id → wanted id) fun _ => True)

include stratified fromAncestors among

/-- The passes through the parents come to an end. -/
theorem exists_fromParents :
    ∃ ty, (start.features.entry owner).parents.foldlM (fun ty parent => start.completed.substitute
        parent.ancestor (parent.actuals.map start.types.tree) ty) target =
      some ty ∧ Resolved start.features owner wanted target ty := by
  let parents := (start.features.entry owner).parents
  let Left (rest : List Parent) (id : FormalId) : Prop :=
    (∀ parent ∈ parents, parent ∈ rest ∨ start.features.Spares parent.ancestor id) ∧
      (start.features.Spares owner id → wanted id)
  have fold : ∀ rest, rest <:+ parents → ∀ ty : Ty, (ty.Among (Left rest) fun _ => True) →
      ∃ result, rest.foldlM (fun ty parent => start.completed.substitute parent.ancestor
          (parent.actuals.map start.types.tree) ty) ty = some result ∧
        (result.Among (Left []) fun _ => True) ∧ (ty.Anchored → result.Anchored) ∧
          (ty.Among (fun id => ∀ parent ∈ parents, start.features.Spares parent.ancestor id)
            (fun _ => True) → result = ty) := by
    intro rest
    induction rest with
    | nil => exact fun _ ty tyAmong => ⟨ty, rfl, tyAmong, id, fun _ => rfl⟩
    | cons parent rest ih =>
      intro isSuffix ty tyAmong
      have member : parent ∈ parents := isSuffix.subset List.mem_cons_self
      have found := FeatureTable.get_entry_of_mem member
      have actualsAmong : ∀ actual ∈ parent.actuals.map start.types.tree,
          actual.Among (Left rest) fun _ => True := by
        rw [List.forall_mem_map]
        intro actual present
        refine (stratified.actuals_own owner _ found parent member actual present).among.mono ?_
        exact fun id belongs =>
          ⟨fun other isParent => .inr (stratified.spares_own isParent belongs),
            fun spared => absurd belongs spared.foreign⟩
      obtain ⟨result, isResult, substituted⟩ := fromAncestors parent.ancestor
        (FeatureTable.hasParent_of_mem member) ty (Left rest) _ actualsAmong
        (tyAmong.mono fun id left spared => ⟨fun other isParent => by
          rcases left.1 other isParent with inRest | sparedByOther
          · rcases List.mem_cons.mp inRest with rfl | inRest
            · exact .inr spared
            · exact .inl inRest
          · exact .inr sparedByOther, left.2⟩)
      obtain ⟨last, isLast, lastAmong, lastAnchored, lastSame⟩ :=
        ih ((List.suffix_cons parent rest).trans isSuffix) result substituted.among
      refine ⟨last, ?_, lastAmong, fun anchored => lastAnchored (substituted.anchored anchored),
        fun spared => ?_⟩
      · rw [List.foldlM_cons, isResult]
        exact isLast
      · have resultEq := substituted.same
          (by simpa using stratified.accepted owner _ found parent member)
          (spared.mono fun id all => all parent member)
        rw [lastSame (resultEq.symm ▸ spared), resultEq]
  obtain ⟨ty, isTy, tyAmong, anchored, same⟩ := fold parents List.suffix_rfl target
    (among.mono fun id keep => ⟨fun _ => .inl, keep⟩)
  refine ⟨ty, isTy, tyAmong.mono fun id left => ⟨fun parent member => ?_, left.2⟩, anchored, same⟩
  exact (left.1 parent member).resolve_left (by simp)

/-- A substitution has a result if those in the parts have one. -/
theorem exists_substitute (wellFormed : start.WellFormed)
    (actualsAmong : ∀ actual ∈ actuals, actual.Among wanted fun _ => True)
    (fromParts : ∀ ty, Resolved start.features owner wanted target ty →
      ∀ child ∈ ty.children, start.EndsFor owner child) :
    ∃ result, start.completed.substitute owner actuals target = some result ∧
      Substituted start.features owner actuals wanted target result := by
  cases mentions : target.mentionsFormal with
  | false =>
    exact ⟨target, Signature.substitute_of_closed mentions owner actuals,
      Ty.among_of_closed mentions, id, fun _ _ => rfl⟩
  | true =>
    obtain ⟨ty, isTy, resolved⟩ := exists_fromParents stratified fromAncestors among
    have combine : ∀ {result : Ty}, Substituted start.features owner actuals wanted ty result →
        Substituted start.features owner actuals wanted target result := by
      intro result substituted
      refine ⟨substituted.among, fun anchored => substituted.anchored (resolved.anchored anchored),
        fun accepts spared => ?_⟩
      obtain rfl := resolved.same (spared.mono fun id sparedHere parent member =>
        FeatureTable.Spares.parent sparedHere (FeatureTable.hasParent_of_mem member))
      exact substituted.same accepts spared
    rw [Signature.substitute_of_open mentions, Signature.substituteStep]
    simp only [completed_feature, Feature.outline, Option.bind_eq_bind, Option.bind_some,
      List.foldlM_map, isTy]
    have children := fromParts ty resolved
    cases ty with
    | formal id boxed =>
      obtain ⟨result, isResult, substituted⟩ := exists_substituteFormal actualsAmong boxed
        (Ty.among_formal_iff.mp resolved.remains)
      exact ⟨result, isResult, combine substituted⟩
    | applied feature args outer isRef isThis =>
      obtain ⟨newArgs, newOuter, settled, areNewArgs, isNewOuter, settles, substituted⟩ :=
        exists_substituteParts actualsAmong stratified wellFormed resolved.remains children
      refine ⟨_, ?_, combine substituted⟩
      simp [areNewArgs, isNewOuter, settles]
    | _ => exact ⟨_, rfl, combine ⟨Ty.among_of_closed rfl, id, fun _ _ => rfl⟩⟩

end

/-- Substitutions come to an end for all owners and all types. -/
theorem endsFor (stratified : start.features.Stratified start.types)
    (wellFormed : start.WellFormed) (owner : FeatureId) : ∀ target, start.EndsFor owner target := by
  -- From the ancestors down.
  induction owner using stratified.acyclic.induction with
  | step owner fromAncestors =>
    -- Once the parents are through they have nothing to do with the parts of a type, so these
    -- are visited from the type down.
    have resolved : ∀ ty : Ty, (ty.Among (fun id => ∀ parent ∈ (start.features.entry owner).parents,
        start.features.Spares parent.ancestor id) fun _ => True) → start.EndsFor owner ty := by
      intro ty
      induction ty using Ty.childrenInduction with
      | step ty ih =>
        intro spared wanted actuals actualsAmong among
        refine exists_substitute stratified fromAncestors among wellFormed actualsAmong ?_
        intro ty' resolved child member
        obtain rfl := resolved.same spared
        exact ih child member (spared.child member)
    intro target wanted actuals actualsAmong among
    refine exists_substitute stratified fromAncestors among wellFormed actualsAmong ?_
    exact fun ty resolution child member =>
      resolved child ((resolution.remains.child member).mono fun _ => And.left)

end Checker

end FeatureTypes

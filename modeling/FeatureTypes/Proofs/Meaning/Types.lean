import FeatureTypes.Proofs.Meaning.Terms

/-!
# The meaning of transformations
-/

namespace FeatureTypes

variable {ty : Ty} {visit : TypeId → CheckM (Option TypeId)} {level : TypeId}

/-! ## Lists -/

/-- A list has a result just if all of its elements have one. -/
theorem mapM_eq_some_iff {α β : Type} {visit : α → Option β} {list : List α} {list' : List β} :
    list.mapM visit = some list' ↔
      List.Forall₂ (fun item result => visit item = some result) list list' := by
  induction list generalizing list' with
  | nil => cases list' <;> simp
  | cons head tail ih =>
    rw [List.mapM_cons, List.forall₂_cons_left_iff]
    constructor
    · intro mapped
      obtain ⟨first, firstEq, mapped⟩ := Option.bind_eq_some_iff.mp mapped
      obtain ⟨others, othersEq, mapped⟩ := Option.bind_eq_some_iff.mp mapped
      obtain rfl := Option.some.inj mapped
      exact ⟨first, others, firstEq, ih.mp othersEq, rfl⟩
    · rintro ⟨first, others, firstEq, othersEq, rfl⟩
      rw [firstEq, ih.mpr othersEq]
      rfl

theorem mapM_eq_some_map {α β : Type} {visit : α → Option β} {value : α → β} {list : List α}
    (each : ∀ item ∈ list, visit item = some (value item)) :
    list.mapM visit = some (list.map value) :=
  mapM_eq_some_iff.mpr (List.forall₂_map_right_iff.mpr (List.forall₂_same.mpr each))

theorem optionMapM_eq_some_map {α β : Type} {visit : α → Option β} {value : α → β}
    {option : Option α} (each : ∀ item, option = some item → visit item = some (value item)) :
    option.mapM visit = some (option.map value) := by
  cases option with
  | none => rfl
  | some item =>
    rw [Option.mapM_some, each item rfl]
    rfl

theorem mapM_of_unchanged {α : Type} {visit : α → Option α} {list : List α}
    (unchanged : ∀ item ∈ list, visit item = some item) : list.mapM visit = some list :=
  mapM_eq_some_iff.mpr (List.forall₂_same.mpr unchanged)

theorem mapM_ne_none {α β : Type} {visit : α → Option β} {list : List α}
    (settled : ∀ item ∈ list, visit item ≠ none) : list.mapM visit ≠ none := by
  induction list with
  | nil => exact Option.some_ne_none _
  | cons head tail ih =>
    rw [List.forall_mem_cons] at settled
    obtain ⟨first, firstEq⟩ := Option.ne_none_iff_exists'.mp settled.1
    obtain ⟨others, othersEq⟩ := Option.ne_none_iff_exists'.mp (ih settled.2)
    rw [List.mapM_cons, firstEq, othersEq]
    exact Option.some_ne_none _

/-! ## Trees -/

namespace Ty

variable {visit : Ty → Option (Option Ty)}

theorem transformList_eq_mapM (visit : Ty → Option (Option Ty)) (list : List Ty) :
    transformList visit list = list.mapM (transform visit) := by
  induction list with
  | nil => rfl
  | cons ty rest ih =>
    rw [transformList, List.mapM_cons, ih]

theorem transformOption_eq_mapM (visit : Ty → Option (Option Ty)) (outer : Option Ty) :
    transformOption visit outer = outer.mapM (transform visit) := by
  cases outer with
  | none => rfl
  | some around => rw [transformOption, Option.mapM_some, map_eq_pure_bind]

/-- What a transformation makes of a type that its visitor leaves to the parts. -/
def transformParts (visit : Ty → Option (Option Ty)) : Ty → Option Ty
  | .applied feature args outer isRef isThis => do
    let args ← args.mapM (transform visit)
    let outer ← outer.mapM (transform visit)
    return .applied feature args outer isRef isThis
  | ty => some ty

theorem transform_eq (visit : Ty → Option (Option Ty)) (ty : Ty) :
    ty.transform visit = (do
      match ← visit ty with
      | some result => return result
      | none => ty.transformParts visit) := by
  cases ty with
  | applied feature args outer isRef isThis =>
    have parts : (Ty.applied feature args outer isRef isThis).transformParts visit = (do
        let args ← transformList visit args
        let outer ← transformOption visit outer
        return .applied feature args outer isRef isThis) := by
      rw [transformList_eq_mapM, transformOption_eq_mapM, transformParts]
    rw [transform]
    cases visit _ with
    | none => rfl
    | some settled =>
      cases settled with
      | none => exact parts.symm
      | some result => rfl
  | _ =>
    rw [transform]
    cases visit _ with
    | none => rfl
    | some settled => cases settled <;> rfl

theorem transform_of_settled {result : Ty} (settled : visit ty = some (some result)) :
    ty.transform visit = some result := by
  rw [transform_eq, settled]
  rfl

theorem transform_of_left (left : visit ty = some none) :
    ty.transform visit = ty.transformParts visit := by
  rw [transform_eq, left]
  rfl

/-- A visitor that changes no part changes nothing. -/
theorem transform_of_unchanged
    (unchanged : ∀ part ∈ ty.parts, visit part = some none ∨ visit part = some (some part)) :
    ty.transform visit = some ty := by
  induction ty with
  | applied feature args outer isRef isThis argsStay outerStays =>
    rcases unchanged _ (self_mem_parts _) with left | settled
    · have argsEq : args.mapM (transform visit) = some args := by
        apply mapM_of_unchanged
        intro arg member
        exact argsStay arg member fun part occurs =>
          unchanged part (mem_parts_of_mem_args member occurs)
      have outerEq : outer.mapM (transform visit) = some outer := by
        cases outer with
        | none => rfl
        | some around =>
          rw [Option.mapM_some, outerStays around rfl fun part occurs =>
            unchanged part (mem_parts_of_outer occurs)]
          rfl
      rw [transform_of_left left, transformParts, argsEq, outerEq]
      rfl
    · exact transform_of_settled settled
  | _ =>
    rcases unchanged _ (self_mem_parts _) with left | settled
    · exact transform_of_left left
    · exact transform_of_settled settled

end Ty

namespace Signature

variable (signature : Signature)

theorem replaceThisByLevelAt_of_idle (idle : ty.mentionsThis = false) (level : Ty) :
    ∀ part ∈ ty.parts, signature.replaceThisByLevelAt level part = some none := by
  intro part occurs
  have notThis := List.any_eq_false.mp idle part occurs
  cases part with
  | applied feature args outer isRef isThis =>
    obtain rfl : isThis = false := by simpa [Ty.isThis] using notThis
    rfl
  | _ => rfl

theorem replaceThis_of_idle (idle : ty.mentionsThis = false) (target : Ty) :
    signature.replaceThis ty target = some ty := by
  have levelIdle : ∀ level, signature.replaceThisByLevel level ty = some ty := fun level =>
    Ty.transform_of_unchanged fun part occurs =>
      Or.inl (signature.replaceThisByLevelAt_of_idle idle level part occurs)
  induction target with
  | applied feature args outer isRef isThis _ outerIdle =>
    rw [replaceThis, levelIdle]
    cases outer with
    | none => rfl
    | some around => exact outerIdle around rfl
  | _ =>
    rw [replaceThis, levelIdle]
    rfl

end Signature

/-! ## Formals -/

namespace Ty

variable {settle : FormalId → Bool → Option Ty}

/-- Settles the formals and leaves everything else to its parts. -/
def settleFormals (settle : FormalId → Bool → Option Ty) : Ty → Option (Option Ty)
  | .formal id boxed => return some (← settle id boxed)
  | _ => return none

/-- The type with every formal settled. -/
def mapFormals (settle : FormalId → Bool → Option Ty) (ty : Ty) : Option Ty :=
  ty.transform (settleFormals settle)

@[simp]
theorem mapFormals_formal (id : FormalId) (boxed : Bool) :
    (Ty.formal id boxed).mapFormals settle = settle id boxed := by
  rw [mapFormals, transform, settleFormals]
  cases settle id boxed <;> rfl

theorem mapFormals_applied (feature : FeatureId) (args : List Ty) (outer : Option Ty)
    (isRef isThis : Bool) :
    (Ty.applied feature args outer isRef isThis).mapFormals settle = (do
      let args ← args.mapM (mapFormals settle)
      let outer ← outer.mapM (mapFormals settle)
      return .applied feature args outer isRef isThis) :=
  transform_of_left rfl

/-- The formal, or the formal of `target` that lies `offset` positions further on for one of
`source`. -/
def settleShifted (source target : FeatureId) (offset : Nat) (id : FormalId) (boxed : Bool) :
    Option Ty :=
  if id.feature ≠ source then some (.formal id boxed)
  else if id.index + offset < FormalId.indexBound then
    some (.formal ⟨target, id.index + offset⟩ boxed)
  else none

end Ty

theorem TypeStore.Denotes.feature?_eq {types : TypeStore} {id : TypeId}
    (denotes : types.Denotes id ty) (coherent : types.Coherent) :
    types.feature? id = ty.appliedFeature? := by
  rw [← denotes.layer coherent, feature?]
  cases types.node id <;> rfl

namespace Signature

theorem dropThisFormalAt_eq_settleFormals (signature : Signature) :
    signature.dropThisFormalAt = Ty.settleFormals signature.dropThisFormal := by
  funext ty
  cases ty <;> rfl

end Signature

namespace Checker

open Realizes (lasting_denotes)

variable {signature : Signature} (terms : Terms signature) (liberal : terms.Liberal)
  {checker : Checker}

/-! ## Transformations -/

/-- What a visit of a numbered type says about the transformed tree.  It may settle what the
visit of the tree leaves to the parts. -/
def Settled (visit : Ty → Option (Option Ty)) (ty : Ty) (after : Checker) :
    Option TypeId → Option Ty → Prop
  | some result, some value => after.types.Denotes result value
  | some result, none => ∃ value, ty.transformParts visit = some value ∧
      after.types.Denotes result value
  | none, settled => settled = none

def Visits (checker : Checker) (visit : TypeId → CheckM (Option TypeId))
    (visit' : Ty → Option (Option Ty)) : Prop :=
  ∀ after id ty, terms.invariant after → checker.Onward after → after.types.Denotes id ty →
    Realizes terms after (visit id) (visit' ty) (Settled visit' ty)

include liberal

theorem realizes_mapParts {transform : TypeId → CheckM TypeId} {visit : Ty → Option (Option Ty)}
    (holds : terms.invariant checker) {id : TypeId} (denotes : checker.types.Denotes id ty)
    (transforms : ∀ after, ∀ part ∈ (checker.types.node id).children, ∀ tree,
      terms.invariant after → checker.Onward after → after.types.Denotes part tree →
        Realizes terms after (transform part) (tree.transform visit)
          fun after => after.types.Denotes) :
    Realizes terms checker (mapParts transform id) (ty.transformParts visit) fun after =>
      after.types.Denotes := by
  have reads := denotes.reads (terms.coherent holds)
  refine .look (run_node checker id) ?_
  generalize checker.types.node id = layer at reads transforms
  cases reads with
  | applied feature isRef isThis argsDenote outerDenotes =>
    rw [Ty.transformParts]
    refine .bind (.mapM lasting_denotes lasting_denotes holds argsDenote fun after part member =>
      transforms after part (List.mem_append_left _ member)) ?_
    intro after₁ newArgs args holds₁ onward₁ newArgsDenote
    have outerDenotes := terms.denotesOption holds holds₁ onward₁ outerDenotes
    refine .bind (.optionMapM holds₁ outerDenotes fun part member tree =>
      transforms after₁ part (List.mem_append_right _ (Option.mem_toList.mpr member)) tree holds₁
        onward₁) ?_
    intro after₂ newOuter outer holds₂ onward₂ newOuterDenotes
    exact .makes_of_liberal holds₂ liberal (TypeStore.makes_rebuild (terms.canonical holds₂)
      (terms.denotes holds holds₂ (onward₁.trans onward₂) denotes)
      (terms.denotesAll holds₁ holds₂ onward₂ newArgsDenote) newOuterDenotes)
  | _ => exact .pure holds denotes

theorem realizes_transformWithin {visit' : Ty → Option (Option Ty)}
    (visits : Visits terms checker visit visit') {depth : Nat} (holds : terms.invariant checker)
    {id : TypeId} (denotes : checker.types.Denotes id ty) (deep : id.index < depth) :
    Realizes terms checker (transformWithin visit depth id) (ty.transform visit') fun after =>
      after.types.Denotes := by
  induction depth generalizing checker id ty with
  | zero => exact absurd deep (Nat.not_lt_zero _)
  | succ depth ih =>
    rw [Ty.transform_eq]
    refine .bind (visits checker id ty holds (.refl _) denotes) ?_
    intro after settled settled' holds₁ onward₁ isSettled
    cases settled with
    | some result =>
      cases settled' with
      | some value => exact .pure holds₁ isSettled
      | none =>
        obtain ⟨value, transformed, resultDenotes⟩ := isSettled
        dsimp only
        rw [transformed]
        exact .pure holds₁ resultDenotes
    | none =>
      obtain rfl := isSettled
      have denotes := terms.denotes holds holds₁ onward₁ denotes
      refine realizes_mapParts terms liberal holds₁ denotes ?_
      intro after₂ part member tree holds₂ onward₂ partDenotes
      -- The parts have smaller numbers, so there is enough depth left for them.
      have smaller := (terms.coherent holds₁).child_lt id denotes.1 part member
      refine ih ?_ holds₂ partDenotes (by omega)
      intro after id ty holds' onward
      exact visits after id ty holds' ((onward₁.trans onward₂).trans onward)

/-- Transforming a number gives the number of the transformed tree. -/
theorem realizes_transform {visit' : Ty → Option (Option Ty)}
    (visits : Visits terms checker visit visit') (holds : terms.invariant checker) {id : TypeId}
    (denotes : checker.types.Denotes id ty) :
    Realizes terms checker (transform visit id) (ty.transform visit') fun after =>
      after.types.Denotes :=
  realizes_transformWithin terms liberal visits holds denotes (Nat.lt_succ_self _)

omit liberal in
theorem visit_of_idle {visit' : Ty → Option (Option Ty)} {id : TypeId}
    (holds : terms.invariant checker) (denotes : checker.types.Denotes id ty)
    (idle : ∀ part ∈ ty.parts, visit' part = some none) :
    Realizes terms checker (pure (some id)) (visit' ty) (Settled visit' ty) := by
  have left := idle ty (Ty.self_mem_parts ty)
  have unchanged := Ty.transform_of_unchanged fun part occurs => Or.inl (idle part occurs)
  rw [left]
  exact .pure holds ⟨ty, (Ty.transform_of_left left).symm.trans unchanged, denotes⟩

/-! ## Visits of formals -/

omit liberal in
/-- To pass over a type that mentions no formal makes no difference on the tree. -/
theorem visits_of_formals {settle : TypeId → FormalId → Bool → CheckM (Option TypeId)}
    (visit_eq : ∀ ty, visit ty = (do
      if !(← readTypes (·.mentionsFormal ty)) then return some ty
      match ← node ty with
      | .formal id boxed => settle ty id boxed
      | _ => return none)) {settle' : FormalId → Bool → Option Ty}
    (settles : ∀ after id formal boxed, terms.invariant after →
      after.types.Denotes id (.formal formal boxed) →
        Realizes terms after (settle id formal boxed) (settle' formal boxed)
          fun later settled value => ∃ result, settled = some result ∧
            later.types.Denotes result value) :
    Visits terms checker visit (Ty.settleFormals settle') := by
  intro after id ty holds _ denotes
  rw [visit_eq]
  refine .look (run_readTypes after _) ?_
  rw [TypeStore.mentionsFormal_eq (terms.coherent holds) denotes.1, denotes.2]
  cases mentions : ty.mentionsFormal with
  | false =>
    refine visit_of_idle terms holds denotes ?_
    intro part occurs
    have notFormal := List.any_eq_false.mp mentions part occurs
    cases part with
    | formal id boxed => simp [Ty.isFormal] at notFormal
    | _ => rfl
  | true =>
    refine .node holds denotes ?_
    intro layer reads
    cases reads with
    | formal formal boxed =>
      dsimp only
      rw [Ty.settleFormals, ← bind_pure (settle id formal boxed)]
      refine .bind (settles after id formal boxed holds denotes) ?_
      rintro later _ value holds' _ ⟨result, rfl, resultDenotes⟩
      exact .pure holds' resultDenotes
    | _ => exact .pure holds rfl

theorem visits_shiftFormals (source target : FeatureId) (offset : Nat) :
    Visits terms checker (shiftFormalsAt source target offset)
      (Ty.settleFormals (Ty.settleShifted source target offset)) := by
  refine visits_of_formals terms (fun _ => rfl) ?_
  intro after id formal boxed holds denotes
  refine .branch Iff.rfl (fun _ => .pure holds ⟨id, rfl, denotes⟩) fun _ => ?_
  rw [shiftFormal]
  split
  next =>
    rw [pure_bind]
    refine .follow (.makes_of_liberal holds liberal
      (TypeStore.makes_intern (terms.canonical holds) fun _ member => by cases member)) ?_
    intro after₁ result holds₁ _ resultDenotes
    exact .pure holds₁ ⟨result, rfl, resultDenotes⟩
  next => exact .of_error rfl (.inl rfl)

/-! ## Declared formals -/

section

variable (holds : terms.invariant checker)

include holds

omit liberal

theorem realizes_formal? (id : FormalId) :
    Realizes terms checker (formal? id) (signature.formal? id) fun after formal outline =>
      checker = after ∧ checker.features.formal? id = .ok formal ∧
        outline = formal.map fun formal =>
          ⟨formal.id, formal.isOpen, after.types.tree formal.constraint⟩ := by
  rw [formal?_eq]
  refine .feature holds id.feature ?_
  intro declared found
  refine .pure holds ⟨rfl, by rw [FeatureTable.formal?, found]; rfl, ?_⟩
  simp only [Feature.outline, List.getElem?_map]

theorem realizes_constraint? (id : FormalId) :
    Realizes terms checker (constraint? id) (signature.constraint? id) fun after =>
      Option.Rel after.types.Denotes := by
  rw [constraint?, formal?_eq, Signature.constraint?, Signature.formal?, bind_assoc, bind_assoc]
  refine .feature holds id.feature ?_
  intro declared found
  have wellFormed := (terms.obeys holds).features_wellFormed _ _ found
  refine .pure holds ?_
  simp only [Feature.outline, List.getElem?_map]
  cases present : declared.formals[id.index]? with
  | none => exact .none
  | some formal =>
    exact .some ⟨wellFormed.constraint_held formal (List.mem_of_getElem? present), rfl⟩

end

/-! ## Types of features -/

theorem realizes_formalTypes (holds : terms.invariant checker) (formals : List Formal) :
    Realizes terms checker (formals.mapM fun formal => onTypes (·.formal formal.id))
      (some (formals.map fun formal => Ty.formal formal.id false)) fun after =>
        List.Forall₂ after.types.Denotes := by
  induction formals generalizing checker with
  | nil => exact .pure holds .nil
  | cons formal rest ih =>
    rw [List.mapM_cons]
    refine .follow (.makes_of_liberal holds liberal
      (TypeStore.makes_intern (terms.canonical holds) fun _ member => by cases member)) ?_
    intro after₁ first holds₁ onward₁ firstDenotes
    refine .follow (ih holds₁) ?_
    intro after₂ others holds₂ onward₂ othersDenote
    exact .pure holds₂ (.cons (terms.denotes holds₁ holds₂ onward₂ firstDenotes) othersDenote)

omit liberal in
theorem realizes_outerTypeBy {typeOf : FeatureId → CheckM TypeId} {typeOf' : FeatureId → Option Ty}
    (realizes : ∀ after id, terms.invariant after →
      Realizes terms after (typeOf id) (typeOf' id) fun after => after.types.Denotes)
    (holds : terms.invariant checker) (id : FeatureId) :
    Realizes terms checker (outerTypeBy typeOf id) (signature.outerTypeBy typeOf' id)
      fun after => Option.Rel after.types.Denotes := by
  refine .feature holds id ?_
  intro declared _
  dsimp only [Feature.outline]
  cases declared.outer with
  | none => exact .pure holds .none
  | some outer =>
    refine .feature holds outer ?_
    intro around _
    refine .branch Iff.rfl (fun _ => .pure holds .none) fun _ => ?_
    refine .bind (realizes checker outer holds) ?_
    intro after ty tree holds' _ denotes
    exact .pure holds' (.some denotes)

theorem realizes_selfTypeWithin (depth : Nat) (holds : terms.invariant checker) (id : FeatureId) :
    Realizes terms checker (selfTypeWithin depth id) (signature.selfTypeWithin depth id)
      fun after => after.types.Denotes := by
  induction depth generalizing checker id with
  | zero => exact .of_error rfl (.inl rfl)
  | succ depth ih =>
    refine .feature holds id ?_
    intro declared _
    refine .follow (realizes_formalTypes terms liberal holds declared.formals) ?_
    intro after₁ args holds₁ onward₁ argsDenote
    refine .bind (realizes_outerTypeBy terms (fun after id holds' => ih holds' id) holds₁ id) ?_
    intro after₂ outer outerTree holds₂ onward₂ outerDenotes
    simp only [Feature.outline, List.map_map, Function.comp_def]
    exact .makes_of_liberal holds₂ liberal (TypeStore.makes_applied (terms.canonical holds₂) id
      (terms.denotesAll holds₁ holds₂ onward₂ argsDenote) outerDenotes declared.isRef false)

section

variable (holds : terms.invariant checker)

include holds

/-- The type of a feature from inside is the declared one. -/
theorem realizes_selfType (id : FeatureId) :
    Realizes terms checker (selfType id) (signature.selfType id) fun after =>
      after.types.Denotes :=
  realizes_selfTypeWithin terms liberal _ holds id

theorem realizes_instantiate (id : FeatureId) {args : List TypeId} {argTrees : List Ty}
    (argsDenote : List.Forall₂ checker.types.Denotes args argTrees) :
    Realizes terms checker (instantiate id args) (signature.instantiate id argTrees) fun after =>
      after.types.Denotes := by
  refine .feature holds id ?_
  intro declared _
  refine .bind (realizes_outerTypeBy terms
    (fun _ id holds' => realizes_selfTypeWithin terms liberal _ holds' id) holds id) ?_
  intro after outer outerTree holds' onward outerDenotes
  exact .makes_of_liberal holds' liberal (TypeStore.makes_applied (terms.canonical holds') id
    (terms.denotesAll holds holds' onward argsDenote) outerDenotes declared.isRef false)

/-! ## The formal for the type at hand -/

omit holds in
theorem visits_dropThisFormals :
    Visits terms checker dropThisFormalAt signature.dropThisFormalAt := by
  rw [signature.dropThisFormalAt_eq_settleFormals]
  refine visits_of_formals terms (fun _ => rfl) ?_
  intro after id formal boxed holds denotes
  refine .branch Iff.rfl (fun _ => .pure holds ⟨id, rfl, denotes⟩) fun _ => ?_
  refine .feature holds formal.feature ?_
  intro declared _
  dsimp only [Feature.outline]
  cases declared.origin with
  | none => exact .pure holds ⟨id, rfl, denotes⟩
  | some origin =>
    refine .bind (realizes_selfType terms liberal holds origin) ?_
    intro after₁ self selfTree holds₁ _ selfDenotes
    refine .follow (.makes_of_liberal holds₁ liberal
      (TypeStore.makes_asThis (terms.canonical holds₁) selfDenotes)) ?_
    intro after₂ result holds₂ _ resultDenotes
    exact .pure holds₂ ⟨result, rfl, resultDenotes⟩

theorem realizes_dropThisFormals {id : TypeId} (denotes : checker.types.Denotes id ty) :
    Realizes terms checker (dropThisFormals id) (signature.dropThisFormals ty) fun after =>
      after.types.Denotes :=
  realizes_transform terms liberal (visits_dropThisFormals terms liberal) holds denotes

/-! ## Enclosing instances -/

omit liberal in
theorem realizes_levelFeature? (denotes : checker.types.Denotes level ty) :
    Realizes terms checker (levelFeature? level) (signature.levelFeature? ty) fun _ =>
      Eq := by
  refine .node holds denotes ?_
  intro layer reads
  cases reads with
  | formal id boxed =>
    refine .bind (realizes_constraint? terms holds id) ?_
    intro after constraint constraintTree holds₁ onward₁ constraintDenotes
    have seenDenotes : after.types.Denotes (constraint.getD level)
        (constraintTree.getD (.formal id boxed)) := by
      cases constraintDenotes with
      | none => exact terms.denotes holds holds₁ onward₁ denotes
      | some constraintDenotes => exact constraintDenotes
    exact .known holds₁ (run_readTypes after _) (seenDenotes.feature?_eq (terms.coherent holds₁))
  | _ => exact .pure holds rfl

omit liberal in
theorem realizes_levelInherits (denotes : checker.types.Denotes level ty) (id : FeatureId) :
    Realizes terms checker (levelInherits level id) (signature.levelInherits ty id) fun _ =>
      Eq := by
  refine .bind (realizes_levelFeature? terms holds denotes) ?_
  rintro after heir _ holds₁ _ rfl
  cases heir with
  | none => exact .pure holds₁ rfl
  | some heir =>
    dsimp only
    have run := run_readFeatures after (·.inheritsFrom heir id)
    cases answered : after.features.inheritsFrom heir id with
    | ok answer =>
      rw [(terms.obeys holds₁).follows.inherits_eq heir id answer answered]
      rw [answered] at run
      exact .known holds₁ run rfl
    | error failure =>
      rw [answered] at run
      exact .of_error run (terms.unrelated holds₁ answered)

omit liberal in
theorem realizes_replaceThisByLevelAt {id : TypeId} {levelTree : Ty}
    (levelDenotes : checker.types.Denotes level levelTree) (denotes : checker.types.Denotes id ty) :
    Realizes terms checker (replaceThisByLevelAt level id)
      (signature.replaceThisByLevelAt levelTree ty)
      (Settled (signature.replaceThisByLevelAt levelTree) ty) := by
  refine .look (run_readTypes checker _) ?_
  rw [TypeStore.mentionsThis_eq (terms.coherent holds) denotes.1, denotes.2]
  cases mentions : ty.mentionsThis with
  | false =>
    exact visit_of_idle terms holds denotes
      (signature.replaceThisByLevelAt_of_idle mentions levelTree)
  | true =>
    refine .node holds denotes ?_
    intro layer reads
    cases reads with
    | applied feature isRef isThis argsDenote outerDenotes =>
      cases isThis with
      | false => exact .pure holds rfl
      | true =>
        refine .bind (realizes_levelInherits terms holds levelDenotes feature) ?_
        rintro after inherits _ holds₁ onward₁ rfl
        cases inherits with
        | false => exact .pure holds₁ rfl
        | true => exact .pure holds₁ (terms.denotes holds holds₁ onward₁ levelDenotes)
    | _ => exact .pure holds rfl

theorem realizes_replaceThisByLevel {id : TypeId} {levelTree : Ty}
    (levelDenotes : checker.types.Denotes level levelTree) (denotes : checker.types.Denotes id ty) :
    Realizes terms checker (replaceThisByLevel level id)
      (signature.replaceThisByLevel levelTree ty) fun after => after.types.Denotes :=
  realizes_transform terms liberal (fun _ _ _ holds' onward denotes' =>
    realizes_replaceThisByLevelAt terms holds' (terms.denotes holds holds' onward levelDenotes)
      denotes') holds denotes

end

theorem realizes_replaceThisWithin {depth : Nat} (holds : terms.invariant checker) {id : TypeId}
    {levelTree : Ty} (levelDenotes : checker.types.Denotes level levelTree)
    (denotes : checker.types.Denotes id ty) (deep : level.index < depth) :
    Realizes terms checker (replaceThisWithin depth level id)
      (signature.replaceThis ty levelTree) fun after => after.types.Denotes := by
  induction depth generalizing checker level id levelTree ty with
  | zero => exact absurd deep (Nat.not_lt_zero _)
  | succ depth ih =>
    refine .look (run_readTypes checker _) ?_
    rw [TypeStore.mentionsThis_eq (terms.coherent holds) denotes.1, denotes.2]
    cases mentions : ty.mentionsThis with
    | false =>
      rw [signature.replaceThis_of_idle mentions]
      exact .pure holds denotes
    | true =>
      rw [Signature.replaceThis]
      refine .bind (realizes_replaceThisByLevel terms liberal holds levelDenotes denotes) ?_
      intro after₁ replaced tree holds₁ onward₁ replacedDenotes
      have levelDenotes := terms.denotes holds holds₁ onward₁ levelDenotes
      have reads := levelDenotes.reads (terms.coherent holds₁)
      have smaller := (terms.coherent holds₁).child_lt level levelDenotes.1
      refine .look (run_readTypes after₁ _) ?_
      rw [TypeStore.outer?]
      generalize after₁.types.node level = layer at reads smaller
      cases reads with
      | applied feature isRef isThis argsDenote outerDenotes =>
        cases outerDenotes with
        | none => exact .pure holds₁ replacedDenotes
        | @some around _ aroundDenotes =>
          have smaller := smaller around (List.mem_append_right _ (by simp))
          exact ih holds₁ aroundDenotes replacedDenotes (by omega)
      | _ => exact .pure holds₁ replacedDenotes

/-- Numbers are replaced level by level, as trees are. -/
theorem realizes_replaceThis (holds : terms.invariant checker) {id target : TypeId}
    {targetTree : Ty} (denotes : checker.types.Denotes id ty)
    (targetDenotes : checker.types.Denotes target targetTree) :
    Realizes terms checker (replaceThis id target) (signature.replaceThis ty targetTree)
      fun after => after.types.Denotes :=
  realizes_replaceThisWithin terms liberal holds targetDenotes denotes (Nat.lt_succ_self _)

end Checker

end FeatureTypes

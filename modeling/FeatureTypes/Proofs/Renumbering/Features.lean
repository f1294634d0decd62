import FeatureTypes.Proofs.Feature.Growth
import FeatureTypes.Proofs.Renumbering.Types
import FeatureTypes.Proofs.Ty.Display

/-!
# Features in terms of other numbers
-/

namespace FeatureTypes

variable {declared declared' : Feature}

variable {same same' : TypeId → TypeId → Prop}

theorem option_rel_flip {α β : Type} {relation : α → β → Prop} {relation' : β → α → Prop}
    {left : Option α} {right : Option β} (flips : ∀ a b, relation a b → relation' b a)
    (related : Option.Rel relation left right) : Option.Rel relation' right left := by
  cases related with
  | none => exact .none
  | some holds => exact .some (flips _ _ holds)

/-- Two features with the same types that agree otherwise. -/
structure Feature.Renumbered (same : TypeId → TypeId → Prop) (declared declared' : Feature) : Prop
    extends Feature.Related same declared declared' where
  companion_eq : declared'.companion = declared.companion

theorem Feature.Related.imp (weaker : ∀ ty ty', same ty ty' → same' ty ty')
    (related : declared.Related same declared') : declared.Related same' declared' :=
  { related with
    formals_related := related.formals_related.imp fun _ _ => .imp weaker
    parents_related := related.parents_related.imp fun _ _ => .imp weaker
    summands_related := option_rel_imp (fun _ _ summands => summands.imp weaker)
      related.summands_related }

theorem Feature.Related.flip (flips : ∀ ty ty', same ty ty' → same' ty' ty)
    (related : declared.Related same declared') : declared'.Related same' declared where
  name_eq := related.name_eq.symm
  qualifiedName_eq := related.qualifiedName_eq.symm
  outer_eq := related.outer_eq.symm
  isRef_eq := related.isRef_eq.symm
  origin_eq := related.origin_eq.symm
  formals_related := (related.formals_related.imp fun _ _ formal =>
    ⟨formal.id_eq.symm, formal.name_eq.symm, formal.isOpen_eq.symm, formal.span_eq.symm,
      flips _ _ formal.constraint_same⟩).flip
  parents_related := (related.parents_related.imp fun _ _ parent =>
    ⟨parent.ancestor_eq.symm, (parent.actuals_same.imp flips).flip, flips _ _ parent.ty_same⟩).flip
  summands_related := option_rel_flip (fun _ _ summands => (summands.imp flips).flip)
    related.summands_related

theorem Feature.Related.ancestors_eq (related : declared.Related same declared') :
    declared'.parents.map Parent.ancestor = declared.parents.map Parent.ancestor := by
  have parents := related.parents_related
  generalize declared.parents = list at parents
  generalize declared'.parents = list' at parents
  induction parents with
  | nil => rfl
  | cons head _ ih =>
    rw [List.map_cons, List.map_cons, head.ancestor_eq, ih]

/-- Two tables that declare the same features. -/
structure FeatureTable.Renumbered (same : TypeId → TypeId → Prop) (table table' : FeatureTable) :
    Prop where
  typeRoot_eq : table'.typeRoot = table.typeRoot
  related : ∀ id, Option.Rel (Feature.Renumbered same) (table.get id).toOption
    (table'.get id).toOption

namespace FeatureTable

variable {table table' later later' : FeatureTable}

theorem toOption_get (table : FeatureTable) (id : FeatureId) :
    (table.get id).toOption = table.features[id.index]? := by
  rw [get]
  cases table.features[id.index]? <;> rfl

theorem get_error {id : FeatureId} {failure : Failure} (missing : table.get id = .error failure) :
    failure = .unknownFeature := by
  rw [get] at missing
  split at missing
  next => cases missing
  next => exact (Except.error.inj missing).symm

theorem Update.renumbered {id : FeatureId} (renumbered : table.Renumbered same table')
    (update : table.Update later id declared) (update' : table'.Update later' id declared')
    (related : declared.Renumbered same declared') : later.Renumbered same later' := by
  refine ⟨by rw [update.typeRoot_eq, update'.typeRoot_eq, renumbered.typeRoot_eq], ?_⟩
  intro other
  by_cases isUpdated : other = id
  · rw [isUpdated, update.get_self, update'.get_self]
    exact .some related
  · rw [update.get_other other isUpdated, update'.get_other other isUpdated]
    exact renumbered.related other

namespace Renumbered

variable (renumbered : table.Renumbered same table')

include renumbered

theorem imp (weaker : ∀ ty ty', same ty ty' → same' ty ty') : table.Renumbered same' table' :=
  ⟨renumbered.typeRoot_eq, fun id => option_rel_imp
    (fun _ _ related => ⟨related.toRelated.imp weaker, related.companion_eq⟩)
    (renumbered.related id)⟩

theorem flip (flips : ∀ ty ty', same ty ty' → same' ty' ty) : table'.Renumbered same' table :=
  ⟨renumbered.typeRoot_eq.symm, fun id => option_rel_flip
    (fun _ _ related => ⟨related.toRelated.flip flips, related.companion_eq.symm⟩)
    (renumbered.related id)⟩

/-- A feature is declared in both tables or in none. -/
theorem get_cases (id : FeatureId) :
    (table.get id = .error .unknownFeature ∧ table'.get id = .error .unknownFeature) ∨
      ∃ declared declared', table.get id = .ok declared ∧ table'.get id = .ok declared' ∧
        declared.Renumbered same declared' := by
  have related := renumbered.related id
  cases found : table.get id with
  | error failure =>
    cases found' : table'.get id with
    | error failure' =>
      rw [get_error found, get_error found']
      exact Or.inl ⟨rfl, rfl⟩
    | ok declared' =>
      rw [found, found'] at related
      cases related
  | ok declared =>
    cases found' : table'.get id with
    | error failure' =>
      rw [found, found'] at related
      cases related
    | ok declared' =>
      rw [found, found'] at related
      cases related with
      | some related => exact Or.inr ⟨declared, declared', rfl, rfl, related⟩

theorem size_eq : table'.size = table.size := by
  have iff : ∀ position, table.size ≤ position ↔ table'.size ≤ position := by
    intro position
    have related := renumbered.related ⟨position⟩
    rw [toOption_get, toOption_get] at related
    rw [size, size, ← Array.getElem?_eq_none_iff, ← Array.getElem?_eq_none_iff]
    dsimp only at related
    generalize table.features[position]? = found at related ⊢
    generalize table'.features[position]? = found' at related ⊢
    cases related <;> simp
  exact Nat.le_antisymm ((iff _).mp (Nat.le_refl _)) ((iff _).mpr (Nat.le_refl _))

/-! ## Ancestors -/

theorem parentCount_eq : table'.parentCount = table.parentCount := by
  have lengthsEq : table'.features.toList.map (·.parents.length) =
      table.features.toList.map (·.parents.length) := by
    refine List.ext_getElem? fun position => ?_
    have related := renumbered.related ⟨position⟩
    rw [toOption_get, toOption_get] at related
    simp only [List.getElem?_map, Array.getElem?_toList]
    dsimp only at related
    generalize table.features[position]? = found at related ⊢
    generalize table'.features[position]? = found' at related ⊢
    cases related with
    | none => rfl
    | some related => rw [Option.map_some, Option.map_some, related.parents_related.length_eq]
  rw [parentCount, parentCount, List.length_flatMap, List.length_flatMap, lengthsEq]

theorem hasAncestorWithin_eq (ancestor : FeatureId) (budget : Nat) (pending seen : List FeatureId) :
    table'.hasAncestorWithin ancestor budget pending seen =
      table.hasAncestorWithin ancestor budget pending seen := by
  induction budget generalizing pending seen with
  | zero => cases pending <;> rfl
  | succ budget ih =>
    cases pending with
    | nil => rfl
    | cons current rest =>
      rw [hasAncestorWithin, hasAncestorWithin, ih rest seen]
      rcases renumbered.get_cases current with ⟨missing, missing'⟩ |
        ⟨declared, declared', found, found', related⟩
      · rw [missing, missing']
        rfl
      · rw [found, found']
        simp only [bind, Except.bind, related.ancestors_eq, ih]

/-- Inheritance is the same in both tables. -/
theorem inheritsFrom_eq (heir ancestor : FeatureId) :
    table'.inheritsFrom heir ancestor = table.inheritsFrom heir ancestor := by
  rw [inheritsFrom, inheritsFrom, renumbered.parentCount_eq, renumbered.hasAncestorWithin_eq]

/-! ## Names -/

theorem qualify_eq (outer : FeatureId) (name : String) :
    table'.qualify outer name = table.qualify outer name := by
  rw [qualify, qualify]
  rcases renumbered.get_cases outer with ⟨missing, missing'⟩ |
    ⟨declared, declared', found, found', related⟩
  · rw [missing, missing']
  · rw [found, found']
    simp only [bind, Except.bind, related.qualifiedName_eq]

theorem formalName_eq (id : FormalId) : table'.formalName id = table.formalName id := by
  rw [formalName, formalName, formal?, formal?]
  rcases renumbered.get_cases id.feature with ⟨missing, missing'⟩ |
    ⟨declared, declared', found, found', related⟩
  · rw [missing, missing']
  · rw [found, found']
    have formals := option_rel_getElem? related.formals_related id.index
    simp only [bind, Except.bind, pure, Except.pure]
    generalize declared.formals[id.index]? = formal at formals ⊢
    generalize declared'.formals[id.index]? = formal' at formals ⊢
    cases formals with
    | none => rfl
    | some formal => simp only [formal.name_eq]

theorem compare_eq (left right : FeatureId) :
    table'.compare left right = table.compare left right := by
  rw [compare, compare]
  rcases renumbered.get_cases left with ⟨missing, missing'⟩ |
    ⟨declared, declared', found, found', related⟩
  · rw [missing, missing']
    rfl
  · rcases renumbered.get_cases right with ⟨missing, missing'⟩ |
      ⟨other, other', foundOther, foundOther', relatedOther⟩
    · rw [found, found', missing, missing']
      rfl
    · rw [found, found', foundOther, foundOther']
      simp only [bind, Except.bind, related.qualifiedName_eq, relatedOther.qualifiedName_eq]

theorem formalPhrase_eq (id : FormalId) (boxed : Bool) :
    table'.formalPhrase id boxed = table.formalPhrase id boxed := by
  rw [formalPhrase, formalPhrase, renumbered.formalName_eq]
  rcases renumbered.get_cases id.feature with ⟨missing, missing'⟩ |
    ⟨declared, declared', found, found', related⟩
  · rw [missing, missing']
  · rw [found, found']
    simp only [bind, Except.bind, Feature.isUniverse, related.outer_eq, related.qualifiedName_eq]
    rfl

theorem compareFormals_eq (left right : FormalId) (leftBoxed rightBoxed : Bool) :
    table'.compareFormals left right leftBoxed rightBoxed =
      table.compareFormals left right leftBoxed rightBoxed := by
  rw [compareFormals, compareFormals, renumbered.compare_eq, renumbered.formalName_eq,
    renumbered.formalName_eq]

theorem phrase_eq (ty : Ty) : ty.phrase table' = ty.phrase table := by
  induction ty using Ty.childrenInduction with
  | step ty parts =>
    cases ty with
    | formal id boxed => exact renumbered.formalPhrase_eq id boxed
    | applied feature args outer isRef isThis =>
      have argsEq : Ty.argsPhrase table' args = Ty.argsPhrase table args := by
        have eachEq : ∀ arg ∈ args, arg.phrase table' = arg.phrase table :=
          fun arg member => parts arg (List.mem_append_left _ member)
        clear parts
        induction args with
        | nil => rfl
        | cons arg rest ih =>
          rw [List.forall_mem_cons] at eachEq
          rw [Ty.argsPhrase, Ty.argsPhrase, eachEq.1, ih eachEq.2]
      have outerEq : Ty.outerPhrase table' outer = Ty.outerPhrase table outer := by
        cases outer with
        | none => rfl
        | some around =>
          rw [Ty.outerPhrase, Ty.outerPhrase, parts around (by simp [Ty.children])]
      rw [Ty.phrase, Ty.phrase, argsEq, outerEq]
      rcases renumbered.get_cases feature with ⟨missing, missing'⟩ |
        ⟨declared, declared', found, found', related⟩
      · rw [missing, missing']
      · rw [found, found']
        simp only [bind, Except.bind, related.isRef_eq, related.name_eq]
    | _ => rfl

theorem display_eq (ty : Ty) : ty.display table' = ty.display table := by
  rw [Ty.display, Ty.display, renumbered.phrase_eq]

end Renumbered

end FeatureTable

/-! ## Types shown and ordered -/

namespace TypeStore

section

variable {cmp cmp' : Comparison}
  (agree : ∀ ty ty' other other', same ty ty' → same' other other' → cmp' ty' other' = cmp ty other)

include agree

theorem compareArgs_of_related {left left' right right' : List TypeId}
    (leftRelated : List.Forall₂ same left left') (rightRelated : List.Forall₂ same' right right') :
    compareArgs cmp' left' right' = compareArgs cmp left right := by
  induction leftRelated generalizing right right' with
  | nil => rfl
  | cons head _ ih =>
    cases rightRelated with
    | nil => rfl
    | cons otherHead others =>
      rw [compareArgs, compareArgs, agree _ _ _ _ head otherHead, ih others]

theorem compareOuter_of_related {left left' right right' : Option TypeId}
    (leftRelated : Option.Rel same left left') (rightRelated : Option.Rel same' right right') :
    compareOuter cmp' left' right' = compareOuter cmp left right := by
  cases leftRelated with
  | none => cases rightRelated <;> rfl
  | some around =>
    cases rightRelated with
    | none => rfl
    | some otherAround => exact agree _ _ _ _ around otherAround

end

variable {types types' : TypeStore} {table table' : FeatureTable} (coherent : types.Coherent)
  (coherent' : types'.Coherent) (renumbered : table.Renumbered (types.Matches types') table')
  {depth depth' : Nat}

include coherent coherent'

theorem Matches.layer_within {ty ty' : TypeId} (matching : types.Matches types' ty ty')
    (bound : ty.index < depth + 1) (bound' : ty'.index < depth' + 1) :
    Node.Related (fun child child' => types.Matches types' child child' ∧ child.index < depth ∧
      child'.index < depth') (types.node ty) (types'.node ty') := by
  have smaller := coherent.child_lt ty matching.1
  have smaller' := coherent'.child_lt ty' matching.2.1
  have related := matching.layer coherent coherent'
  generalize types.node ty = layer at smaller related
  generalize types'.node ty' = layer' at smaller' related
  cases related with
  | applied feature isRef isThis sameArgs sameOuter =>
    obtain ⟨argsSmaller, outerSmaller⟩ := List.forall_mem_append.mp smaller
    obtain ⟨argsSmaller', outerSmaller'⟩ := List.forall_mem_append.mp smaller'
    refine .applied feature isRef isThis ?_ ?_
    · refine (forall₂_and_mem sameArgs argsSmaller argsSmaller').imp ?_
      rintro child child' ⟨childMatches, _, _⟩
      exact ⟨childMatches, by omega, by omega⟩
    · cases sameOuter with
      | none => exact .none
      | @some around around' aroundMatches =>
        have := outerSmaller around (by simp)
        have := outerSmaller' around' (by simp)
        exact .some ⟨aroundMatches, by omega, by omega⟩
  | error => exact .error
  | void => exact .void
  | undefined => exact .undefined
  | formal id boxed => exact .formal id boxed

include renumbered

/-- Matching types are shown by one text. -/
theorem display_of_matches {ty ty' : TypeId} (matching : types.Matches types' ty ty') :
    types'.display table' ty' = types.display table ty := by
  obtain ⟨held, held', treeEq⟩ := matching
  rw [display_eq_display coherent held, display_eq_display coherent' held', treeEq,
    renumbered.display_eq]

variable {left left' right right' : TypeId} (leftMatches : types.Matches types' left left')
  (rightMatches : types.Matches types' right right')

include leftMatches rightMatches

theorem compareWithin_of_matches (skipOuter : Bool) (bound : left.index < depth)
    (bound' : left'.index < depth') :
    types'.compareWithin table' depth' skipOuter left' right' =
      types.compareWithin table depth skipOuter left right := by
  -- The walk counts down along the left type only, so the right one is under no bound.
  induction depth generalizing depth' left left' right right' skipOuter with
  | zero => exact absurd bound (Nat.not_lt_zero _)
  | succ depth ih =>
    obtain ⟨depth', rfl⟩ : ∃ smaller, depth' = smaller + 1 := ⟨depth' - 1, by omega⟩
    have leftRelated := leftMatches.layer_within coherent coherent' bound bound'
    have rightRelated := rightMatches.layer coherent coherent'
    rw [compareWithin, compareWithin]
    simp only [← leftMatches.eq_iff rightMatches coherent coherent']
    split
    next => rfl
    next =>
      generalize types.node left = layer at leftRelated ⊢
      generalize types'.node left' = layer' at leftRelated ⊢
      generalize types.node right = other at rightRelated ⊢
      generalize types'.node right' = other' at rightRelated ⊢
      cases leftRelated with
      | formal id boxed =>
        cases rightRelated with
        | formal id' boxed' => exact renumbered.compareFormals_eq id id' boxed boxed'
        | _ => rfl
      | applied feature isRef isThis sameArgs sameOuter =>
        cases rightRelated with
        | applied feature' isRef' isThis' sameArgs' sameOuter' =>
          have parts : ∀ child child' other other', (types.Matches types' child child' ∧
              child.index < depth ∧ child'.index < depth') →
              types.Matches types' other other' →
                types'.compareWithin table' depth' false child' other' =
                  types.compareWithin table depth false child other :=
            fun _ _ _ _ ⟨childMatches, bound, bound'⟩ otherMatches =>
              ih childMatches otherMatches false bound bound'
          simp only [renumbered.compare_eq, compareArgs_of_related parts sameArgs sameArgs',
            compareOuter_of_related parts sameOuter sameOuter', sameArgs.length_eq,
            sameArgs'.length_eq]
        | _ => rfl
      | _ => cases rightRelated <;> rfl

/-- Matching types are ordered alike. -/
theorem compare_of_matches :
    types'.compare table' left' right' = types.compare table left right :=
  compareWithin_of_matches coherent coherent' renumbered leftMatches rightMatches false
    (Nat.lt_succ_self _) (Nat.lt_succ_self _)

end TypeStore

end FeatureTypes

import FeatureTypes.Proofs.Feature.Flat
import FeatureTypes.Proofs.Feature.Lawful
import FeatureTypes.Proofs.Meaning.Smooth
import FeatureTypes.Proofs.Store.Whole
import FeatureTypes.Proofs.Ty.Filling

/-!
# Substitution fills in formals

Where a type mentions no formals of strict ancestors of a feature, a substitution through
the feature fills in the formals of the feature alone.
-/

namespace FeatureTypes

variable {list : List Ty}

variable {declared : Feature} {table : FeatureTable} {owner feature : FeatureId} {ty : Ty}

theorem Ty.assemble_of_whole {args : List Ty} {outer : Option Ty} {isRef isThis : Bool}
    (whole : (Ty.applied feature args outer isRef isThis).Whole) :
    Ty.assemble feature args outer isRef isThis = .applied feature args outer isRef isThis := by
  obtain ⟨wholeArgs, wholeOuter⟩ := Ty.whole_applied_iff.mp whole
  refine if_neg ?_
  rintro (isError | member)
  · exact (wholeOuter .error isError).ne_error rfl
  · exact (wholeArgs .error member).ne_error rfl

/-! ## The formals of a declared feature -/

/-- The formals of a declared feature give way to `actuals`. -/
def Filling.ofFeature (owner : FeatureId) (declared : Feature) (actuals : List Ty) : Filling where
  owner
  isOpen position := declared.formals[position]?.any Formal.isOpen
  actuals

theorem Feature.lt_of_accepts {count : Nat} (accepts : declared.accepts count = true)
    {position : Nat} {formal : Formal} (present : declared.formals[position]? = some formal)
    (closed : formal.isOpen = false) : position < count := by
  have bound := (List.getElem?_eq_some_iff.mp present).choose
  rw [Feature.accepts] at accepts
  split at accepts
  next endsOpen =>
    have notLast : position + 1 ≠ declared.formals.length := by
      intro isLast
      rw [Feature.endsOpen, List.getLast?_eq_getElem?, ← isLast, Nat.add_sub_cancel, present]
        at endsOpen
      simp [closed] at endsOpen
    have := of_decide_eq_true accepts
    omega
  next =>
    have := of_decide_eq_true accepts
    omega

theorem Feature.endsOpen_eq_false (closed : ∀ formal ∈ declared.formals, formal.isOpen = false) :
    declared.endsOpen = false := by
  rw [Feature.endsOpen, Option.any_eq_false]
  exact fun formal last => closed formal (List.mem_of_getLast? last)

theorem Feature.eq_length_of_accepts {count : Nat} (accepts : declared.accepts count = true)
    (closed : declared.endsOpen = false) : count = declared.formals.length := by
  rw [Feature.accepts, closed, if_neg Bool.false_ne_true] at accepts
  exact of_decide_eq_true accepts

namespace Filling

variable {owner : FeatureId} {declared : Feature} {actuals : List Ty}

theorem fill_of_closed (filling : Filling) {formals : FormalId → Prop} {features : FeatureId → Prop}
    (covered : ty.Over formals features) (closed : ty.mentionsFormal = false) :
    filling.fill ty = ty := by
  rw [Ty.mentionsFormal, List.any_eq_false] at closed
  apply filling.fill_of_apart
  intro part occurs
  have holds := covered part occurs
  have noFormal := closed part occurs
  cases part with
  | formal id boxed => exact absurd rfl noFormal
  | error => exact holds.elim
  | _ => exact ⟨id, by simp⟩

theorem openPosition?_ofFeature {position : Nat} {formal : Formal}
    (present : declared.formals[position]? = some formal) (boxed : Bool) :
    (ofFeature owner declared actuals).openPosition? (.formal ⟨owner, position⟩ boxed) =
      if formal.isOpen then some position else none := by
  simp [openPosition?, ofFeature, present]

theorem fillList_formals (numbered : declared.Numbered owner)
    (accepts : declared.accepts actuals.length = true) :
    (ofFeature owner declared actuals).fillList
      (declared.formals.map fun formal => .formal formal.id false) = actuals := by
  -- From a position on, the formals give way to the actuals from there on.
  have fromPosition : ∀ rest position, declared.formals.drop position = rest →
      (rest = [] → actuals.length ≤ position) →
        (ofFeature owner declared actuals).fillList
          (rest.map fun formal => .formal formal.id false) = actuals.drop position := by
    intro rest
    induction rest with
    | nil =>
      intro position _ used
      rw [List.drop_eq_nil_of_le (used rfl)]
      rfl
    | cons formal rest ih =>
      intro position dropped _
      have present : declared.formals[position]? = some formal := by
        rw [← List.head?_drop, dropped]
        rfl
      have dropped' : declared.formals.drop (position + 1) = rest := by
        rw [← List.tail_drop, dropped]
        rfl
      obtain ⟨idEq, onlyLast⟩ := numbered position formal present
      have atEnd : rest = [] ↔ declared.formals.length = position + 1 := by
        have bound := (List.getElem?_eq_some_iff.mp present).choose
        rw [← dropped', List.drop_eq_nil_iff]
        omega
      rw [List.map_cons, fillList, idEq]
      cases isOpen : formal.isOpen with
      | true =>
        obtain rfl := atEnd.mpr (onlyLast isOpen).symm
        have trailing : (ofFeature owner declared actuals).trailing?
            (.formal ⟨owner, position⟩ false) [] = some position := by
          rw [trailing?, List.isEmpty_nil, if_pos rfl, openPosition?_ofFeature present, isOpen,
            if_pos rfl]
        rw [List.map_nil, trailing]
        rfl
      | false =>
        have bound := Feature.lt_of_accepts accepts present isOpen
        have single : (ofFeature owner declared actuals).single position =
            actuals[position] := by
          simp [Filling.single, ofFeature, present, isOpen, bound]
        have notTrailing : (ofFeature owner declared actuals).trailing?
            (.formal ⟨owner, position⟩ false) (rest.map fun formal => .formal formal.id false) =
              none := by
          apply trailing?_eq_none
          rw [openPosition?_ofFeature present, isOpen, if_neg Bool.false_ne_true]
        rw [notTrailing, List.drop_eq_getElem_cons bound, fill_own _ rfl]
        dsimp only
        rw [if_neg Bool.false_ne_true, single]
        refine congrArg _ (ih (position + 1) dropped' fun isLast => ?_)
        have closed : declared.endsOpen = false := by
          rw [Feature.endsOpen, List.getLast?_eq_getElem?, atEnd.mp isLast, Nat.add_sub_cancel,
            present]
          exact isOpen
        rw [Feature.eq_length_of_accepts accepts closed, atEnd.mp isLast]
  refine fromPosition declared.formals 0 rfl fun noFormals => ?_
  rw [Feature.eq_length_of_accepts accepts (by simp [Feature.endsOpen, noFormals]), noFormals]
  rfl

end Filling

/-! ## Types with parts that could not be typed -/

namespace Ty

/-- The type, apart from its parts, is no formal outside `formals`, and applies no feature
outside `features`. -/
def RootAmong (formals : FormalId → Prop) (features : FeatureId → Prop) : Ty → Prop
  | .formal id _ => formals id
  | .applied feature _ _ _ _ => features feature
  | .error | .void | .undefined => True

/-- The formals of the type are among `formals`, and the features that it applies among
`features`.  It may contain error types. -/
def Among (formals : FormalId → Prop) (features : FeatureId → Prop) (ty : Ty) : Prop :=
  ∀ part ∈ ty.parts, part.RootAmong formals features

instance (formals : FormalId → Prop) (features : FeatureId → Prop) [DecidablePred formals]
    [DecidablePred features] : DecidablePred (RootAmong formals features)
  | .formal id _ => inferInstanceAs (Decidable (formals id))
  | .applied feature _ _ _ _ => inferInstanceAs (Decidable (features feature))
  | .error | .void | .undefined => inferInstanceAs (Decidable True)

instance (formals : FormalId → Prop) (features : FeatureId → Prop) [DecidablePred formals]
    [DecidablePred features] (ty : Ty) : Decidable (ty.Among formals features) :=
  inferInstanceAs (Decidable (∀ part ∈ ty.parts, part.RootAmong formals features))

section

variable {formals : FormalId → Prop} {ty : Ty} {features : FeatureId → Prop}
  (among : ty.Among formals features)

include among

theorem Among.mono {formals' : FormalId → Prop} (weaker : ∀ id, formals id → formals' id) :
    ty.Among formals' features := by
  intro part occurs
  have holds := among part occurs
  cases part with
  | formal id boxed => exact weaker id holds
  | _ => exact holds

theorem Among.not_belongsTo {owner : FeatureId} (foreign : ∀ id, formals id → id.feature ≠ owner) :
    ¬ ty.BelongsTo owner := by
  have root := among ty (self_mem_parts ty)
  cases ty with
  | formal id boxed => exact foreign id root
  | _ => exact id

theorem Among.child {child : Ty} (member : child ∈ ty.children) :
    child.Among formals features :=
  fun part occurs => among part (mem_parts_of_mem_children member occurs)

end

theorem Over.among {formals : FormalId → Prop} {features : FeatureId → Prop} {ty : Ty}
    (covered : ty.Over formals features) : ty.Among formals features := by
  intro part occurs
  have holds := covered part occurs
  cases part <;> first | exact holds | exact trivial

end Ty

/-! ## Formals that are not inherited -/

namespace FeatureTable

/-- The formal belongs to no feature from which `owner` inherits. -/
def Spares (table : FeatureTable) (owner : FeatureId) (id : FormalId) : Prop :=
  ¬ table.Inherits owner id.feature

/-- The formal is a declared one of `owner`, or belongs to a feature from which `owner` does
not inherit. -/
def Fillable (table : FeatureTable) (owner : FeatureId) (id : FormalId) : Prop :=
  (id.feature = owner → table.DeclaresFormal id) ∧ (id.feature ≠ owner → table.Spares owner id)

variable {table : FeatureTable} {owner : FeatureId} {id : FormalId}

theorem Spares.foreign (spared : table.Spares owner id) : id.feature ≠ owner := by
  rintro rfl
  exact spared .refl

theorem Spares.fillable (spared : table.Spares owner id) : table.Fillable owner id :=
  ⟨fun belongs => absurd belongs spared.foreign, fun _ => spared⟩

theorem Owns.index_lt {declared : Feature} (owned : table.Owns owner id)
    (found : table.get owner = .ok declared) : id.index < declared.formals.length := by
  obtain ⟨rfl, declared', found', bound⟩ := owned
  rwa [Except.ok.inj (found.symm.trans found')]

theorem Owns.fillable (owned : table.Owns owner id) : table.Fillable owner id :=
  ⟨fun _ => owned.2, fun foreign => absurd owned.1 foreign⟩

theorem Owns.spares (owned : table.Owns owner id) (unrelated : ¬ table.Inherits feature owner) :
    table.Spares feature id := by
  rw [Spares, owned.1]
  exact unrelated

theorem Fillable.spares_parent (fillable : table.Fillable owner id)
    (grounded : table.Grounded owner) (found : table.get owner = .ok declared) {parent : Parent}
    (member : parent ∈ declared.parents) : table.Spares parent.ancestor id := by
  intro inherits
  by_cases belongs : id.feature = owner
  · exact grounded.not_inherits found member (belongs ▸ inherits)
  · exact fillable.2 belongs (.head ⟨declared, found, parent, member, rfl⟩ inherits)

theorem Spares.parent {ancestor : FeatureId} (spared : table.Spares owner id)
    (hasParent : table.HasParent owner ancestor) : table.Spares ancestor id :=
  fun inherits => spared (.head hasParent inherits)

end FeatureTable

namespace Signature

theorem rebuild_self (feature : FeatureId) (args : List Ty) (outer : Option Ty)
    (isRef isThis : Bool) :
    rebuild (.applied feature args outer isRef isThis) args outer =
      .applied feature args outer isRef isThis :=
  if_pos ⟨rfl, rfl⟩

theorem rebuild_eq_assemble {args : List Ty} {outer : Option Ty} {isRef isThis : Bool}
    (whole : (Ty.applied feature args outer isRef isThis).Whole) (newArgs : List Ty)
    (newOuter : Option Ty) :
    rebuild (.applied feature args outer isRef isThis) newArgs newOuter =
      .assemble feature newArgs newOuter isRef isThis := by
  rw [rebuild]
  split
  next same => rw [same.1, same.2, Ty.assemble_of_whole whole]
  next => rfl

end Signature

namespace Checker

variable {start : Checker} {admits : Ty → Prop} {actuals : List Ty}
  {call : (owner : FeatureId) → (actuals : List Ty) → (target : Ty) → Option Ty}

/-! ## Lists of arguments -/

section

variable (found : start.features.get owner = .ok declared)

include found

theorem signature_trailingOpen? (actuals : List Ty) (ty : Ty) (rest : List Ty) :
    start.signature.trailingOpen? owner ty rest =
      some ((Filling.ofFeature owner declared actuals).trailing? ty rest) := by
  cases rest with
  | cons _ _ => cases ty <;> rfl
  | nil =>
    cases ty with
    | formal id boxed =>
      by_cases belongs : id.feature = owner
      · simp only [Signature.trailingOpen?, signature_formal? found belongs, belongs,
          Filling.trailing?, Filling.openPosition?, Filling.ofFeature, Option.any_map,
          List.isEmpty_nil, ne_eq, not_true_eq_false, if_false, if_true,
          true_and, Option.pure_def, Option.bind_eq_bind, Option.bind_some]
        split <;> rfl
      · simp [Signature.trailingOpen?, Filling.trailing?, Filling.openPosition?,
          Filling.ofFeature, belongs]
    | _ => rfl

/-- Only the elements that are not spliced have to be filled in. -/
theorem substituteEach_eq_fillList_of_suffix
    (filled : ∀ ty rest, ty :: rest <:+ list →
      (Filling.ofFeature owner declared actuals).trailing? ty rest = none →
        call owner actuals ty = some ((Filling.ofFeature owner declared actuals).fill ty)) :
    start.signature.substituteEach call owner actuals list =
      some ((Filling.ofFeature owner declared actuals).fillList list) := by
  induction list with
  | nil => rfl
  | cons ty rest ih =>
    rw [Signature.substituteEach, signature_trailingOpen? found actuals, Filling.fillList,
      ih fun ty' rest' suffix => filled ty' rest' (suffix.trans (List.suffix_cons ty rest))]
    cases trailing : (Filling.ofFeature owner declared actuals).trailing? ty rest with
    | some position => rfl
    | none =>
      rw [filled ty rest (List.suffix_refl _) trailing]
      rfl

theorem substituteEach_eq_fillList
    (filled : ∀ ty ∈ list, call owner actuals ty =
      some ((Filling.ofFeature owner declared actuals).fill ty)) :
    start.signature.substituteEach call owner actuals list =
      some ((Filling.ofFeature owner declared actuals).fillList list) :=
  substituteEach_eq_fillList_of_suffix found fun ty _ suffix _ =>
    filled ty (suffix.mem List.mem_cons_self)

/-- The list of all formals gives way to the actuals as a whole. -/
theorem substituteList_eq (list : List Ty) :
    start.signature.substituteList call owner actuals list =
      if list = declared.formals.map fun formal => .formal formal.id false then some actuals
      else start.signature.substituteEach call owner actuals list := by
  rw [Signature.substituteList, start.follows_signature.feature_eq owner declared found]
  simp [Feature.outline, Function.comp_def]

theorem substituteEach_eq_mapM
    (closed : ∀ last ∈ list.getLast?,
      (Filling.ofFeature owner declared actuals).openPosition? last = none) :
    start.signature.substituteEach call owner actuals list = list.mapM (call owner actuals) := by
  induction list with
  | nil => rfl
  | cons ty rest ih =>
    have notTrailing : (Filling.ofFeature owner declared actuals).trailing? ty rest = none := by
      cases rest with
      | nil => exact closed ty rfl
      | cons _ _ => rfl
    have closedRest : ∀ last ∈ rest.getLast?,
        (Filling.ofFeature owner declared actuals).openPosition? last = none := by
      intro last isLast
      apply closed
      rw [List.getLast?_cons, Option.mem_def.mp isLast]
      rfl
    rw [Signature.substituteEach, signature_trailingOpen? found actuals, notTrailing,
      ih closedRest, List.mapM_cons]
    rfl

variable (fits : declared.accepts actuals.length = true)

include fits

theorem substituteList_of_foreign (wellFormed : declared.WellFormed start.types owner)
    (foreign : ∀ ty ∈ list, ¬ ty.BelongsTo owner)
    (keeps : ∀ ty ∈ list, call owner actuals ty = some ty) :
    start.signature.substituteList call owner actuals list = some list := by
  rw [substituteList_eq found]
  split
  next isFormals =>
    have noFormals : declared.formals = [] := by
      cases formals : declared.formals with
      | nil => rfl
      | cons formal others =>
        have idEq := wellFormed.formal_id 0 formal (by rw [formals]; rfl)
        have member : Ty.formal formal.id false ∈ list := by
          rw [isFormals, formals]
          exact List.mem_cons_self
        exact absurd (congrArg FormalId.feature idEq) (foreign _ member)
    have counted := Feature.eq_length_of_accepts fits (by simp [Feature.endsOpen, noFormals])
    rw [noFormals, List.length_nil, List.length_eq_zero_iff] at counted
    rw [isFormals, noFormals, counted]
    rfl
  next =>
    rw [substituteEach_eq_mapM found fun last isLast =>
      Filling.openPosition?_eq_none _ (foreign last (List.mem_of_getLast? isLast))]
    exact mapM_of_unchanged keeps

theorem substituteList_eq_fillList (numbered : declared.Numbered owner)
    (filled : ∀ ty ∈ list, call owner actuals ty =
      some ((Filling.ofFeature owner declared actuals).fill ty)) :
    start.signature.substituteList call owner actuals list =
      some ((Filling.ofFeature owner declared actuals).fillList list) := by
  rw [substituteList_eq found]
  split
  next isFormals => rw [isFormals, Filling.fillList_formals numbered fits]
  next => exact substituteEach_eq_fillList found filled

/-! ## One step -/

theorem formalUnder_eq_fill (admitted : ∀ ty, admits ty) {id : FormalId}
    (bound : id.feature = owner → id.index < declared.formals.length) (boxed : Bool) :
    start.signature.formalUnder (start.demands admits) owner actuals id boxed =
      some ((Filling.ofFeature owner declared actuals).fill (.formal id boxed)) := by
  by_cases belongs : id.feature = owner
  · obtain ⟨formal, present⟩ : ∃ formal, declared.formals[id.index]? = some formal :=
      ⟨_, List.getElem?_eq_getElem (bound belongs)⟩
    rw [Filling.fill_own _ belongs, Filling.single]
    cases isOpen : formal.isOpen with
    | true =>
      have loud : (start.demands admits).make .error = some .error := if_pos (admitted _)
      rw [Signature.formalUnder, if_neg (by simp [belongs]), Signature.closedUnder,
        signature_formal? found belongs, present]
      cases boxed <;> simp [isOpen, loud, Filling.ofFeature, present, Ty.asRef]
    | false =>
      have inActuals := Feature.lt_of_accepts fits present isOpen
      rw [formalUnder_of_closed found belongs present isOpen (List.getElem?_eq_getElem inActuals)]
      simp only [Filling.ofFeature, present, Option.any_some, isOpen, Bool.false_eq_true, if_false,
        List.getD_eq_getElem?_getD, List.getElem?_eq_getElem inActuals, Option.getD_some]
      cases boxed with
      | false => rfl
      | true => exact Demands.replace_of_admits (admitted _) _
  · rw [Signature.formalUnder, if_pos belongs, Filling.fill_foreign _ belongs]
    rfl

variable {args : List Ty} {outer : Option Ty} {isRef isThis : Bool}

omit found fits in
theorem ownUnder_applied {demands : Demands} {newArgs settled : List Ty} {newOuter : Option Ty}
    (argsSettled : start.signature.substituteList call owner actuals args = some newArgs)
    (outerSettled : outer.mapM (call owner actuals) = some newOuter)
    (settles : start.signature.argsUnder demands call feature newArgs = some settled) :
    start.signature.ownUnder demands call owner actuals (.applied feature args outer isRef isThis) =
      demands.replace (.applied feature args outer isRef isThis)
        (Signature.rebuild (.applied feature args outer isRef isThis) settled newOuter) := by
  rw [Signature.ownUnder, argsSettled, outerSettled]
  simp only [Option.bind_eq_bind, Option.bind_some, settles]

variable
  (mentions : (Ty.applied feature args outer isRef isThis).mentionsFormal = true)
  (keeps : ∀ parent ∈ declared.parents, start.smooth admits parent.ancestor
    (parent.actuals.map start.types.tree) (.applied feature args outer isRef isThis) =
      some (.applied feature args outer isRef isThis))

include mentions keeps

theorem smooth_applied {newArgs settled : List Ty} {newOuter : Option Ty}
    (argsSettled : start.signature.substituteList (start.smooth admits) owner actuals args =
      some newArgs)
    (outerSettled : outer.mapM (start.smooth admits owner actuals) = some newOuter)
    (settles : start.signature.argsUnder (start.demands admits) (start.smooth admits) feature
      newArgs = some settled) :
    start.smooth admits owner actuals (.applied feature args outer isRef isThis) =
      (start.demands admits).replace (.applied feature args outer isRef isThis)
        (Signature.rebuild (.applied feature args outer isRef isThis) settled newOuter) := by
  rw [smooth_of_open found fits mentions (foldlM_eq_some_self keeps)]
  exact ownUnder_applied argsSettled outerSettled settles

theorem smooth_applied_self (plain : start.features.DeclaresPlain feature)
    (argsKept : start.signature.substituteList (start.smooth admits) owner actuals args =
      some args)
    (outerKept : ∀ around, outer = some around →
      start.smooth admits owner actuals around = some around) :
    start.smooth admits owner actuals (.applied feature args outer isRef isThis) =
      some (.applied feature args outer isRef isThis) := by
  have outerSettled : outer.mapM (start.smooth admits owner actuals) = some outer := by
    cases outer with
    | none => rfl
    | some around =>
      rw [Option.mapM_some, outerKept around rfl]
      rfl
  rw [smooth_applied found fits mentions keeps argsKept outerSettled (argsUnder_of_plain plain _),
    Signature.rebuild_self, Demands.replace_self]

end

/-! ## All features -/

section

variable (wellFormed : start.WellFormed) (grounded : start.features.Grounded owner)

include wellFormed grounded

/-- Formals of other features are left alone. -/
theorem smooth_of_spared (spared : ty.Among (start.features.Spares owner)
      start.features.DeclaresPlain)
    (accepts : start.features.Accepts owner actuals.length) :
    start.smooth admits owner actuals ty = some ty := by
  -- From the ancestors down, and for each feature from the parts of a type up.
  refine grounded.induction (motive := fun owner => ∀ {ty : Ty} {actuals : List Ty},
    ty.Among (start.features.Spares owner) start.features.DeclaresPlain →
      start.features.Accepts owner actuals.length →
        start.smooth admits owner actuals ty = some ty) ?_ spared accepts
  intro owner grounded fromParents ty actuals spared accepts
  have ⟨declared, found, fits⟩ := accepts
  induction ty using Ty.childrenInduction with
  | step ty childrenKept =>
    cases mentions : ty.mentionsFormal with
    | false => exact smooth_of_closed accepts mentions
    | true =>
      have keeps : ∀ parent ∈ declared.parents, start.smooth admits parent.ancestor
          (parent.actuals.map start.types.tree) ty = some ty := by
        intro parent member
        have hasParent : start.features.HasParent owner parent.ancestor :=
          ⟨declared, found, parent, member, rfl⟩
        refine fromParents parent.ancestor hasParent
          (spared.mono fun id spared => spared.parent hasParent) ?_
        rw [List.length_map]
        exact grounded.accepted owner declared .refl found parent member
      have kept := fun child member => childrenKept child member (spared.child member)
      have root := spared ty (Ty.self_mem_parts ty)
      cases ty with
      | formal id boxed =>
        rw [smooth_of_open found fits mentions (foldlM_eq_some_self keeps), Signature.ownUnder,
          Signature.formalUnder, if_pos (FeatureTable.Spares.foreign root)]
        rfl
      | applied feature args outer isRef isThis =>
        refine smooth_applied_self found fits mentions keeps root
          (substituteList_of_foreign found fits
            (wellFormed.features_wellFormed owner declared found)
            (fun arg member => (spared.child (List.mem_append_left _ member)).not_belongsTo
              fun _ => FeatureTable.Spares.foreign)
            fun arg member => kept arg (List.mem_append_left _ member)) ?_
        exact fun around present =>
          kept around (List.mem_append_right _ (Option.mem_toList.mpr present))
      | _ => cases mentions

variable (found : start.features.get owner = .ok declared)

include found

theorem parents_keep_of_fillable
    (covered : ty.Among (start.features.Fillable owner) start.features.DeclaresPlain) :
    ∀ parent ∈ declared.parents, start.smooth admits parent.ancestor
      (parent.actuals.map start.types.tree) ty = some ty := by
  intro parent member
  refine smooth_of_spared wellFormed
    (grounded.of_inherits (.single ⟨declared, found, parent, member, rfl⟩))
    (covered.mono fun id fillable => fillable.spares_parent grounded found member) ?_
  rw [List.length_map]
  exact grounded.accepted owner declared .refl found parent member

theorem smooth_formal {id : FormalId} (fillable : start.features.Fillable owner id) (boxed : Bool)
    (fits : declared.accepts actuals.length = true) :
    start.smooth admits owner actuals (.formal id boxed) =
      start.signature.formalUnder (start.demands admits) owner actuals id boxed := by
  have covered : (Ty.formal id boxed).Among (start.features.Fillable owner)
      start.features.DeclaresPlain := by
    simpa [Ty.Among, Ty.parts, Ty.RootAmong] using fillable
  exact smooth_of_open found fits rfl (foldlM_eq_some_self
    (parents_keep_of_fillable wellFormed grounded found covered))

section

variable (admitted : ∀ ty, admits ty) (numbered : declared.Numbered owner)
  (fits : declared.accepts actuals.length = true)
  (covered : ty.Over (start.features.Fillable owner) start.features.DeclaresPlain)

include admitted numbered fits covered

omit wellFormed grounded in
theorem ownUnder_eq_fill (filled : ∀ child ∈ ty.children, start.smooth admits owner actuals child =
      some ((Filling.ofFeature owner declared actuals).fill child)) :
    start.signature.ownUnder (start.demands admits) (start.smooth admits) owner actuals ty =
      some ((Filling.ofFeature owner declared actuals).fill ty) := by
  cases ty with
  | formal id boxed =>
    refine formalUnder_eq_fill found fits admitted (fun belongs => ?_) boxed
    exact FeatureTable.Owns.index_lt ⟨belongs, (Ty.over_formal_iff.mp covered).1 belongs⟩ found
  | applied feature args outer isRef isThis =>
    obtain ⟨plain, _⟩ := Ty.over_applied_iff.mp covered
    have argsFilled := substituteList_eq_fillList found fits numbered
      fun arg member => filled arg (List.mem_append_left _ member)
    have outerFilled : outer.mapM (start.smooth admits owner actuals) =
        some (outer.map (Filling.ofFeature owner declared actuals).fill) :=
      optionMapM_eq_some_map fun around present =>
        filled around (List.mem_append_right _ (Option.mem_toList.mpr present))
    rw [ownUnder_applied argsFilled outerFilled (argsUnder_of_plain plain _),
      Signature.rebuild_eq_assemble covered.whole, Filling.fill_applied]
    exact Demands.replace_of_admits (admitted _) _
  | _ => rfl

/-- Where all types may be made, the formals of the feature are filled in. -/
theorem smooth_fill :
    start.smooth admits owner actuals ty =
      some ((Filling.ofFeature owner declared actuals).fill ty) := by
  induction ty using Ty.childrenInduction with
  | step ty childrenFilled =>
    cases mentions : ty.mentionsFormal with
    | false =>
      rw [Filling.fill_of_closed _ covered mentions]
      exact smooth_of_closed ⟨declared, found, fits⟩ mentions
    | true =>
      rw [smooth_of_open found fits mentions (foldlM_eq_some_self
        (parents_keep_of_fillable wellFormed grounded found covered.among))]
      exact ownUnder_eq_fill found admitted numbered fits covered fun child member =>
        childrenFilled child member (covered.child member)

end

theorem smooth_fill_of_owns (lawful : start.features.Lawful)
    (fits : declared.accepts actuals.length = true)
    (covered : ty.Over (start.features.Owns owner) start.features.DeclaresPlain) :
    start.smooth (fun _ => True) owner actuals ty =
      some ((Filling.ofFeature owner declared actuals).fill ty) :=
  smooth_fill wellFormed grounded found (fun _ => trivial) (lawful.numbered owner declared found)
    fits (covered.mono fun _ => FeatureTable.Owns.fillable)

end

end Checker

end FeatureTypes

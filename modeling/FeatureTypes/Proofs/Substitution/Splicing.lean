import FeatureTypes.Proofs.Checker.Upkeep
import FeatureTypes.Proofs.Substitution.Boxing
import FeatureTypes.Proofs.Substitution.Filled

/-!
# References in substituted lists

In a list of types, each element is substituted by itself, and a reference around it stays.
An open formal at the end of the list is different: the actuals that it stands for are
spliced into the list as they are.
-/

namespace FeatureTypes

variable {list : List TypeId} {owner : FeatureId} {table : FeatureTable} {position : Nat}

theorem Filling.openPosition?_asRef (filling : Filling) (ty : Ty) :
    filling.openPosition? ty.asRef = filling.openPosition? ty := by
  cases ty <;> rfl

theorem Filling.openPosition?_formal_eq_some_iff (filling : Filling) {id : FormalId}
    {boxed : Bool} :
    filling.openPosition? (.formal id boxed) = some position ↔
      (id.feature = filling.owner ∧ filling.isOpen id.index = true) ∧ id.index = position := by
  rw [openPosition?]
  by_cases isOpen : id.feature = filling.owner ∧ filling.isOpen id.index = true
  · rw [if_pos isOpen, Option.some.injEq, and_iff_right isOpen]
  · simp [isOpen]

theorem Signature.BoxesAlong.mapM {substitute : FeatureId → List Ty → Ty → Option Ty}
    (boxes : BoxesAlong substitute) (owner : FeatureId) (actuals list : List Ty) :
    (list.map Ty.asRef).mapM (substitute owner actuals) =
      (list.mapM (substitute owner actuals)).map (List.map Ty.asRef) := by
  induction list with
  | nil => rfl
  | cons ty rest ih =>
    rw [List.map_cons, List.mapM_cons, List.mapM_cons, boxes, ih]
    cases substitute owner actuals ty with
    | none => rfl
    | some first => cases rest.mapM (substitute owner actuals) <;> rfl

namespace Checker

open Filter

/-! ## What is prescribed -/

section

variable {start : Checker} {owner : FeatureId} {declared : Feature}
  (found : start.features.get owner = .ok declared) {actuals : List Ty}

include found

theorem signature_substituteEach_of_open {last : Ty}
    (isOpen : (Filling.ofFeature owner declared actuals).openPosition? last = some position)
    (initial : List Ty) :
    start.signature.substituteEach start.signature.substitute owner actuals (initial ++ [last]) =
      (initial.mapM (start.signature.substitute owner actuals)).map
        (· ++ actuals.drop position) := by
  induction initial with
  | nil =>
    have trailing : (Filling.ofFeature owner declared actuals).trailing? last [] =
        some position := isOpen
    rw [List.nil_append, Signature.substituteEach, signature_trailingOpen? found actuals,
      trailing]
    rfl
  | cons ty rest ih =>
    have notTrailing : (Filling.ofFeature owner declared actuals).trailing? ty
        (rest ++ [last]) = none := by
      simp [Filling.trailing?]
    rw [List.cons_append, Signature.substituteEach, signature_trailingOpen? found actuals,
      notTrailing, ih, List.mapM_cons]
    cases start.signature.substitute owner actuals ty with
    | none => rfl
    | some first =>
      cases rest.mapM (start.signature.substitute owner actuals) <;> rfl

end

section

variable {start : Checker} (wellFormed : start.WellFormed) {owner : FeatureId}
  (grounded : start.features.Grounded owner) {declared : Feature}
  (found : start.features.get owner = .ok declared) (numbered : declared.Numbered owner)
  {actuals : List Ty} (accepts : declared.accepts actuals.length = true)

include wellFormed grounded found numbered accepts

theorem signature_substituteList_eq_each (list : List Ty) :
    start.signature.substituteList start.signature.substitute owner actuals list =
      start.signature.substituteEach start.signature.substitute owner actuals list := by
  rw [substituteList_eq found]
  split
  next isFormals =>
    rw [isFormals, substituteEach_eq_fillList found, Filling.fillList_formals numbered accepts]
    refine List.forall_mem_map.mpr fun formal member => ?_
    obtain ⟨position, present⟩ := List.mem_iff_getElem?.mp member
    have owned : start.features.Owns owner formal.id := by
      rw [(numbered position formal present).1]
      exact ⟨rfl, declared, found, (List.getElem?_eq_some_iff.mp present).choose⟩
    have filled : start.smooth (fun _ => True) owner actuals (.formal formal.id false) = some _ :=
      smooth_fill wellFormed grounded found (fun _ => trivial) numbered accepts
        (Ty.over_formal_iff.mpr owned.fillable)
    exact substitute_of_smooth filled
  next => rfl

theorem signature_substituteList_asRef_of_closed {list : List Ty}
    (closed : ∀ last ∈ list.getLast?,
      (Filling.ofFeature owner declared actuals).openPosition? last = none) :
    start.signature.substituteList start.signature.substitute owner actuals (list.map Ty.asRef) =
      (start.signature.substituteList start.signature.substitute owner actuals list).map
        (List.map Ty.asRef) := by
  have closed' : ∀ last ∈ (list.map Ty.asRef).getLast?,
      (Filling.ofFeature owner declared actuals).openPosition? last = none := by
    intro last isLast
    rw [List.getLast?_map] at isLast
    obtain ⟨item, isItem, rfl⟩ := Option.map_eq_some_iff.mp isLast
    rw [Filling.openPosition?_asRef]
    exact closed item isItem
  simp only [signature_substituteList_eq_each wellFormed grounded found numbered accepts]
  rw [substituteEach_eq_mapM found closed,
    substituteEach_eq_mapM found closed',
    start.signature.boxesAlong_substitute.mapM]

theorem signature_substituteList_asRef_of_open {last : Ty}
    (isOpen : (Filling.ofFeature owner declared actuals).openPosition? last = some position)
    (initial : List Ty) :
    start.signature.substituteList start.signature.substitute owner actuals (initial ++ [last]) =
        (initial.mapM (start.signature.substitute owner actuals)).map
          (· ++ actuals.drop position) ∧
      start.signature.substituteList start.signature.substitute owner actuals
          ((initial ++ [last]).map Ty.asRef) =
        (initial.mapM (start.signature.substitute owner actuals)).map
          fun results => results.map Ty.asRef ++ actuals.drop position := by
  have isOpen' : (Filling.ofFeature owner declared actuals).openPosition? last.asRef =
      some position := by
    rw [Filling.openPosition?_asRef, isOpen]
  simp only [signature_substituteList_eq_each wellFormed grounded found numbered accepts]
  refine ⟨signature_substituteEach_of_open found isOpen initial, ?_⟩
  rw [List.map_append, List.map_singleton, signature_substituteEach_of_open found isOpen',
    start.signature.boxesAlong_substitute.mapM, Option.map_map]
  rfl

end

/-! ## What is given -/

/-- The last of the types is the formal of `owner` at the position, which is open. -/
def EndsOpen (checker : Checker) (owner : FeatureId) (list : List TypeId) (position : Nat) :
    Prop :=
  ∃ last ∈ list.getLast?, checker.types.formalId? last = some ⟨owner, position⟩ ∧
    checker.features.DeclaresOpen ⟨owner, position⟩

/-- The results agree but for what an open formal at the end of the list stands for, which is
not boxed in the first. -/
structure BoxedButSpliced (checker : Checker) (owner : FeatureId)
    (args list boxedFirst boxedLast : List TypeId) : Prop where
  same : (∀ position, ¬ checker.EndsOpen owner list position) → boxedFirst = boxedLast
  spliced : ∀ position, checker.EndsOpen owner list position →
    boxedFirst = boxedLast.take (list.length - 1) ++ args.drop position
  same_iff : ∀ position, checker.EndsOpen owner list position →
    (boxedFirst = boxedLast ↔ ∀ actual ∈ args.drop position,
      (checker.types.tree actual).asRef = checker.types.tree actual)

theorem openPosition?_tree_eq_some_iff {declared : Feature} (found : table.get owner = .ok declared)
    {types : TypeStore} (coherent : types.Coherent) {id : TypeId} (held : types.Holds id)
    (actuals : List Ty) :
    (Filling.ofFeature owner declared actuals).openPosition? (types.tree id) = some position ↔
      types.formalId? id = some ⟨owner, position⟩ ∧ table.DeclaresOpen ⟨owner, position⟩ := by
  rw [TypeStore.tree_eq coherent held, TypeStore.formalId?,
    FeatureTable.declaresOpen_iff found]
  cases types.node id with
  | formal formal boxed =>
    obtain ⟨feature, index⟩ := formal
    rw [Node.toTy, Filling.openPosition?_formal_eq_some_iff, Option.some.injEq, FormalId.mk.injEq]
    constructor
    · rintro ⟨⟨belongs, isOpen⟩, rfl⟩
      exact ⟨⟨belongs, rfl⟩, isOpen⟩
    · rintro ⟨⟨belongs, rfl⟩, isOpen⟩
      exact ⟨⟨belongs, isOpen⟩, rfl⟩
  | _ => simp [Node.toTy, Filling.openPosition?]

section

variable {start : Checker} (wellFormed : start.WellFormed) {owner : FeatureId}
  (grounded : start.features.Grounded owner) {declared : Feature}
  (found : start.features.get owner = .ok declared) (numbered : declared.Numbered owner)
  {args list : List TypeId} (accepts : declared.accepts args.length = true)
  (listHeld : ∀ item ∈ list, start.types.Holds item) {first last : List Ty}
  (prescribed : start.signature.substituteList start.signature.substitute owner
    (args.map start.types.tree) ((list.map start.types.tree).map Ty.asRef) = some first)
  (prescribed' : (start.signature.substituteList start.signature.substitute owner
    (args.map start.types.tree) (list.map start.types.tree)).map (List.map Ty.asRef) = some last)

include wellFormed grounded found numbered accepts listHeld prescribed prescribed'

theorem eq_of_not_endsOpen (closed : ∀ position, ¬ start.EndsOpen owner list position) :
    first = last := by
  have coherent := wellFormed.types_canonical.toCoherent
  have noPosition : ∀ ty ∈ (list.map start.types.tree).getLast?,
      (Filling.ofFeature owner declared (args.map start.types.tree)).openPosition? ty = none := by
    intro ty isLast
    rw [List.getLast?_map] at isLast
    obtain ⟨id, isId, rfl⟩ := Option.map_eq_some_iff.mp isLast
    rw [Option.eq_none_iff_forall_ne_some]
    intro position isOpen
    exact closed position ⟨id, isId, (openPosition?_tree_eq_some_iff found coherent
      (listHeld id (List.mem_of_getLast? isId)) _).mp isOpen⟩
  apply Option.some.inj
  rw [← prescribed, ← prescribed']
  exact signature_substituteList_asRef_of_closed wellFormed grounded found numbered
    (by rwa [List.length_map]) noPosition

theorem exists_shape_of_endsOpen (endsOpen : start.EndsOpen owner list position) :
    ∃ results : List Ty, results.length = list.length - 1 ∧
      first = results.map Ty.asRef ++ (args.drop position).map start.types.tree ∧
        last = results.map Ty.asRef ++
          (args.drop position).map fun actual => (start.types.tree actual).asRef := by
  have coherent := wellFormed.types_canonical.toCoherent
  obtain ⟨id, isLast, isOpen⟩ := endsOpen
  obtain ⟨initial, rfl⟩ := List.getLast?_eq_some_iff.mp isLast
  have position_eq := (openPosition?_tree_eq_some_iff found coherent (listHeld id (by simp))
    (args.map start.types.tree)).mpr isOpen
  obtain ⟨unboxed, boxed⟩ := signature_substituteList_asRef_of_open wellFormed grounded found
    numbered (by rwa [List.length_map]) position_eq (initial.map start.types.tree)
  rw [List.map_append, List.map_singleton, boxed] at prescribed
  rw [List.map_append, List.map_singleton, unboxed, Option.map_map] at prescribed'
  obtain ⟨results, each, rfl⟩ := Option.map_eq_some_iff.mp prescribed
  rw [each, Option.map_some] at prescribed'
  refine ⟨results, ?_, by rw [List.map_drop], ?_⟩
  · have lengthEq := (mapM_eq_some_iff.mp each).length_eq
    simp only [List.length_map] at lengthEq
    simp [lengthEq]
  · rw [← Option.some.inj prescribed']
    simp [List.map_drop, Function.comp_def]

theorem boxedButSpliced_of_prescribed (argsHeld : ∀ arg ∈ args, start.types.Holds arg)
    {types : TypeStore} (coherent : types.Coherent) (extension : start.types.Extends types)
    {boxedFirst boxedLast : List TypeId} (firstDenote : List.Forall₂ types.Denotes boxedFirst first)
    (lastDenote : List.Forall₂ types.Denotes boxedLast last) :
    start.BoxedButSpliced owner args list boxedFirst boxedLast := by
  have same_iff : boxedFirst = boxedLast ↔ first = last :=
    TypeStore.Denotes.args_inj firstDenote lastDenote coherent
  refine ⟨?_, ?_, ?_⟩
  · intro closed
    exact same_iff.mpr (eq_of_not_endsOpen wellFormed grounded found numbered accepts listHeld
      prescribed prescribed' closed)
  · intro position endsOpen
    obtain ⟨results, lengthEq, rfl, rfl⟩ := exists_shape_of_endsOpen wellFormed grounded found
      numbered accepts listHeld prescribed prescribed' endsOpen
    have argsDenote : List.Forall₂ types.Denotes args (args.map start.types.tree) :=
      TypeStore.persists_denoteAll wellFormed.types_canonical.toCoherent coherent extension
        (TypeStore.Denotes.forall₂_iff.mpr ⟨argsHeld, rfl⟩)
    have initialDenote := List.forall₂_take (list.length - 1) lastDenote
    rw [List.take_left' (by rw [List.length_map, lengthEq])] at initialDenote
    have spliceDenote := List.forall₂_drop position argsDenote
    rw [← List.map_drop] at spliceDenote
    exact (TypeStore.Denotes.args_inj firstDenote
      (List.rel_append initialDenote spliceDenote) coherent).mpr rfl
  · intro position endsOpen
    obtain ⟨results, lengthEq, rfl, rfl⟩ := exists_shape_of_endsOpen wellFormed grounded found
      numbered accepts listHeld prescribed prescribed' endsOpen
    rw [same_iff, List.append_right_inj, List.map_inj_left]
    exact forall₂_congr fun _ _ => eq_comm

end

/-! ## Boxing before and after -/

/-- The list for the arguments of `ty`, with each type boxed beforehand. -/
def boxThenReplace (ty : TypeId) (list : List TypeId) : CheckM (List TypeId) := do
  replaceFormals ty (← list.mapM asRef)

/-- The list for the arguments of `ty`, with each type boxed afterwards. -/
def replaceThenBox (ty : TypeId) (list : List TypeId) : CheckM (List TypeId) := do
  (← replaceFormals ty list).mapM asRef

section

variable {signature : Signature} (terms : Terms signature) {checker : Checker}
  (holds : terms.invariant checker)

theorem realizes_mapM_asRef (liberal : terms.Liberal) (holds : terms.invariant checker)
    {list' : List Ty} (listDenotes : List.Forall₂ checker.types.Denotes list list') :
    Realizes terms checker (list.mapM asRef) (some (list'.map Ty.asRef)) fun after =>
      List.Forall₂ after.types.Denotes := by
  have boxed : Realizes terms checker (list.mapM asRef) (list'.mapM fun ty => pure ty.asRef)
      fun after => List.Forall₂ after.types.Denotes :=
    .mapM Realizes.lasting_denotes Realizes.lasting_denotes holds listDenotes
      fun _ _ _ _ holds' _ denotes => .asRef holds' liberal denotes
  rwa [List.mapM_pure] at boxed

variable {call : (owner : FeatureId) → (actuals : List Ty) → (target : Ty) → Option Ty}
  (serves : Serves terms (substituteWithin checker.options.depthLimit) call) {ty : TypeId}
  {args : List Ty} {outer : Option Ty} {isRef isThis : Bool}
  (denotes : checker.types.Denotes ty (.applied owner args outer isRef isThis)) {list' : List Ty}
  (listDenotes : List.Forall₂ checker.types.Denotes list list')

include holds serves denotes listDenotes

theorem realizes_replaceFormals :
    Realizes terms checker (replaceFormals ty list) (signature.substituteList call owner args list')
      fun after => List.Forall₂ after.types.Denotes := by
  obtain ⟨argIds, outerId, node, argsDenote, _⟩ := denotes.node_applied (terms.coherent holds)
  refine .look (run_node checker ty) ?_
  rw [node]
  refine .look (EStateM.run_get checker) ?_
  exact realizes_substituteListBy terms serves owner holds argsDenote listDenotes

variable (liberal : terms.Liberal)

include liberal

theorem realizes_boxThenReplace :
    Realizes terms checker (boxThenReplace ty list)
      (signature.substituteList call owner args (list'.map Ty.asRef)) fun after =>
        List.Forall₂ after.types.Denotes := by
  refine .follow (realizes_mapM_asRef terms liberal holds listDenotes) ?_
  intro after boxed holds' onward boxedDenote
  exact realizes_replaceFormals terms holds' (onward.options_eq ▸ serves)
    (terms.denotes holds holds' onward denotes) boxedDenote

theorem realizes_replaceThenBox :
    Realizes terms checker (replaceThenBox ty list)
      ((signature.substituteList call owner args list').map (List.map Ty.asRef)) fun after =>
        List.Forall₂ after.types.Denotes := by
  rw [Option.map_eq_bind]
  refine .bind (realizes_replaceFormals terms holds serves denotes listDenotes) ?_
  intro after results results' holds' _ resultsDenote
  exact realizes_mapM_asRef terms liberal holds' resultsDenote

end

/-! ## Lists that are dealt with -/

/-- The type mentions no formal, or no error type, no metatype and no formals but those of
`owner` and of features from which `owner` does not inherit. -/
def Manageable (table : FeatureTable) (owner : FeatureId) (ty : Ty) : Prop :=
  ty.mentionsFormal = false ∨ ty.Over (table.Fillable owner) table.DeclaresPlain

theorem Manageable.asRef {ty : Ty} (manageable : Manageable table owner ty) :
    Manageable table owner ty.asRef :=
  manageable.imp (fun closed => ty.mentionsFormal_asRef.trans closed) Ty.Over.asRef

theorem substituteList_ne_none {start : Checker} {declared : Feature}
    (found : start.features.get owner = .ok declared) {actuals list : List Ty}
    {call : (owner : FeatureId) → (actuals : List Ty) → (target : Ty) → Option Ty}
    (settled : ∀ ty ∈ list, call owner actuals ty ≠ none) :
    start.signature.substituteList call owner actuals list ≠ none := by
  have each : start.signature.substituteEach call owner actuals list ≠ none := by
    induction list with
    | nil => exact Option.some_ne_none _
    | cons ty rest ih =>
      rw [List.forall_mem_cons] at settled
      rw [Signature.substituteEach, signature_trailingOpen? found actuals]
      cases (Filling.ofFeature owner declared actuals).trailing? ty rest with
      | some position => exact Option.some_ne_none _
      | none =>
        obtain ⟨first, isFirst⟩ := Option.ne_none_iff_exists'.mp settled.1
        obtain ⟨others, areOthers⟩ := Option.ne_none_iff_exists'.mp (ih settled.2)
        simp [isFirst, areOthers]
  rw [substituteList_eq found]
  split
  · exact Option.some_ne_none _
  · exact each

section

variable {start : Checker} (wellFormed : start.WellFormed)
  (numbered : ∀ id declared, start.features.get id = .ok declared → declared.Numbered id)
  {ty : TypeId} {list : List TypeId} (tyHeld : start.types.Holds ty)
  (listHeld : ∀ item ∈ list, start.types.Holds item) {owner : FeatureId}
  (grounded : start.features.Grounded owner) {args : List TypeId} {outer : Option TypeId}
  {isRef isThis : Bool} (node : start.types.node ty = .applied owner args outer isRef isThis)
  (accepts : start.features.Accepts owner args.length)

include wellFormed tyHeld node

theorem WellFormed.denotes_of_node :
    start.types.Denotes ty (.applied owner (args.map start.types.tree)
      (outer.map start.types.tree) isRef isThis) := by
  refine ⟨tyHeld, ?_⟩
  rw [TypeStore.tree_eq wellFormed.types_canonical.toCoherent tyHeld, node, Node.toTy]

include numbered listHeld grounded accepts

/-- Boxing before and after can only differ in spliced actuals. -/
theorem boxedButSpliced_of_givesBoth
    (faithful : start.Faithful) {boxedFirst boxedLast : List TypeId}
    (gives : start.GivesBoth (boxThenReplace ty list) boxedFirst
      (replaceThenBox ty list) boxedLast) :
    start.BoxedButSpliced owner args list boxedFirst boxedLast := by
  have coherent := wellFormed.types_canonical.toCoherent
  have denotes := wellFormed.denotes_of_node tyHeld node
  have listDenotes : List.Forall₂ start.types.Denotes list (list.map start.types.tree) :=
    TypeStore.Denotes.forall₂_iff.mpr ⟨listHeld, rfl⟩
  have argsHeld : ∀ arg ∈ args, start.types.Holds arg := by
    intro arg member
    apply coherent.child_holds tyHeld
    rw [node]
    exact List.mem_append_left _ member
  have carry : ∀ {signature : Signature} {later : Checker}, later.Obeys signature →
      start.types.Extends later.types →
        later.types.Denotes ty (.applied owner (args.map start.types.tree)
          (outer.map start.types.tree) isRef isThis) ∧
        List.Forall₂ later.types.Denotes list (list.map start.types.tree) :=
    fun obeys extension => ⟨denotes.of_extends coherent obeys.types_canonical.toCoherent extension,
      TypeStore.persists_denoteAll coherent obeys.types_canonical.toCoherent extension
        listDenotes⟩
  have firstMeans : start.Represents (boxThenReplace ty list) (fun signature =>
      signature.substituteList signature.substitute owner (args.map start.types.tree)
        ((list.map start.types.tree).map Ty.asRef)) fun types => List.Forall₂ types.Denotes :=
    fun _ _ obeys extension => realizes_boxThenReplace (.free _) obeys
      (substituteWithin_keepsTo _) (carry obeys extension).1 (carry obeys extension).2
      Demands.liberal_lax
  have lastMeans : start.Represents (replaceThenBox ty list) (fun signature =>
      (signature.substituteList signature.substitute owner (args.map start.types.tree)
        (list.map start.types.tree)).map (List.map Ty.asRef))
          fun types => List.Forall₂ types.Denotes :=
    fun _ _ obeys extension => realizes_replaceThenBox (.free _) obeys
      (substituteWithin_keepsTo _) (carry obeys extension).1 (carry obeys extension).2
      Demands.liberal_lax
  obtain ⟨declared, found, fits⟩ := accepts
  obtain ⟨types, first, last, coherent', extension, prescribed, firstDenote, prescribed',
      lastDenote⟩ := gives.exists_values faithful
    firstMeans lastMeans TypeStore.persists_denoteAll TypeStore.persists_denoteAll
  exact boxedButSpliced_of_prescribed wellFormed grounded found (numbered owner declared found)
    fits listHeld prescribed prescribed' argsHeld coherent' extension firstDenote lastDenote

theorem eventually_givesInTurn
    (manageable : ∀ item ∈ list, Manageable start.features owner (start.types.tree item)) :
    ∀ᶠ depth in atTop, ∀ checker : Checker, checker.types = start.types →
      checker.features = start.features → checker.Faithful → checker.options.depthLimit = depth →
        ∃ boxedFirst boxedLast, checker.GivesInTurn (boxThenReplace ty list) boxedFirst
          (replaceThenBox ty list) boxedLast := by
  obtain ⟨declared, found, fits⟩ := accepts
  have fits' : declared.accepts (args.map start.types.tree).length = true := by
    rwa [List.length_map]
  have settled : ∀ {ty : Ty}, Manageable start.features owner ty →
      start.smooth (fun _ => True) owner (args.map start.types.tree) ty ≠ none := by
    rintro ty (closed | covered)
    · rw [smooth_of_closed ⟨declared, found, fits'⟩ closed]
      exact Option.some_ne_none _
    · rw [smooth_fill wellFormed grounded found (fun _ => trivial) (numbered owner declared found)
        fits' covered]
      exact Option.some_ne_none _
  rw [← List.forall_mem_map] at manageable
  obtain ⟨first, isFirst⟩ := Option.ne_none_iff_exists'.mp (substituteList_ne_none found
    (List.forall_mem_map.mpr fun item member => settled (manageable item member).asRef))
  obtain ⟨last, isLast⟩ := Option.ne_none_iff_exists'.mp (substituteList_ne_none found
    fun item member => settled (manageable item member))
  filter_upwards [eventually_settled (start.signature.finitary_substituteList _ _ _) isFirst,
    eventually_settled (start.signature.finitary_substituteList _ _ _) isLast]
    with depth isFirst isLast
  rintro checker typesEq featuresEq faithful rfl
  have resumes := Resumes.of_faithful typesEq featuresEq faithful fun _ => True
  have denotes : checker.types.Denotes ty (.applied owner (args.map start.types.tree)
      (outer.map start.types.tree) isRef isThis) := by
    rw [typesEq]
    exact wellFormed.denotes_of_node tyHeld node
  have listDenotes : List.Forall₂ checker.types.Denotes list (list.map start.types.tree) := by
    rw [typesEq]
    exact TypeStore.Denotes.forall₂_iff.mpr ⟨listHeld, rfl⟩
  have boxedFirst := realizes_boxThenReplace (.smooth start (fun _ => True) checker) resumes
    (serves_smooth _) denotes listDenotes fun _ _ => trivial
  rw [isFirst] at boxedFirst
  obtain ⟨boxedFirst, middle, run, resumes', onward, _⟩ := boxedFirst.exists_run
  have boxedLast := realizes_replaceThenBox (.smooth start (fun _ => True) checker) resumes'
    (serves_smooth _) (resumes.denotes resumes'.toObeys onward denotes)
    (resumes.denotesAll resumes'.toObeys onward listDenotes) fun _ _ => trivial
  rw [onward.options_eq, isLast] at boxedLast
  obtain ⟨boxedLast, after, run', _⟩ := boxedLast.exists_run
  exact ⟨boxedFirst, boxedLast, middle, middle, after, run, .refl, run'⟩

end

/-- In a list that is given for the arguments of a type, references stay, but the arguments
that an open formal at the end stands for are not boxed with it. -/
theorem replaceFormals_asRef
    (start : Checker) (reachable : start.Reachable) (acyclic : start.features.Acyclic)
    (accepted : ∀ id declared, start.features.get id = .ok declared →
      ∀ parent ∈ declared.parents,
        start.features.Accepts parent.ancestor parent.actuals.length)
    (ty : TypeId) (list : List TypeId) (held : ∀ item ∈ ty :: list, start.types.Holds item)
    {owner : FeatureId} {args : List TypeId} {outer : Option TypeId} {isRef isThis : Bool}
    (node : start.types.node ty = .applied owner args outer isRef isThis)
    (accepts : start.features.Accepts owner args.length) :
    (∀ checker : Checker, checker.types = start.types → checker.features = start.features →
      checker.Faithful → ∀ boxedFirst boxedLast,
        checker.GivesBoth (boxThenReplace ty list) boxedFirst (replaceThenBox ty list) boxedLast →
        checker.BoxedButSpliced owner args list boxedFirst boxedLast) ∧
    ((∀ item ∈ list, Manageable start.features owner (start.types.tree item)) →
      ∃ enough, ∀ checker : Checker, checker.types = start.types →
        checker.features = start.features → checker.Faithful → enough ≤ checker.options.depthLimit →
          ∃ boxedFirst boxedLast, checker.GivesInTurn (boxThenReplace ty list) boxedFirst
            (replaceThenBox ty list) boxedLast) := by
  have wellFormed := reachable.sound.toWellFormed
  have numbered : ∀ id declared, start.features.get id = .ok declared → declared.Numbered id :=
    fun id declared found => (reachable.built.orderly.each id declared found).numbered
  have grounded : start.features.Grounded owner :=
    ⟨fun id _ => acyclic id, fun id declared _ => accepted id declared⟩
  obtain ⟨tyHeld, listHeld⟩ := List.forall_mem_cons.mp held
  refine ⟨?_, ?_⟩
  · intro checker typesEq featuresEq faithful boxedFirst boxedLast gives
    rw [← featuresEq] at numbered grounded accepts
    rw [← typesEq] at tyHeld listHeld node
    exact boxedButSpliced_of_givesBoth faithful.wellFormed numbered tyHeld listHeld grounded node
      accepts faithful gives
  · intro manageable
    obtain ⟨enough, gives⟩ := eventually_atTop.mp
      (eventually_givesInTurn wellFormed numbered tyHeld listHeld grounded node accepts manageable)
    exact ⟨enough, fun checker typesEq featuresEq faithful deep =>
      gives _ deep checker typesEq featuresEq faithful rfl⟩

/-- The list consists of the formals of a feature, the last of them open, so that it is replaced
as a whole unless it is boxed beforehand. -/
theorem replaceFormals_asRef_row :
    let start := afterAll
      [.declare (.feature "any" none true), .construct (.instantiate ⟨1⟩ []),
        .declare (.feature "flag" none false), .construct (.instantiate ⟨2⟩ []),
        .declare (.feature "row" none true), .declare (.formal ⟨3⟩ "A" ⟨3⟩ false {}),
        .declare (.formal ⟨3⟩ "N" ⟨3⟩ true {}), .construct (.instantiate ⟨3⟩ [⟨4⟩, ⟨4⟩, ⟨3⟩])] {}
    start.types.node ⟨7⟩ = .applied ⟨3⟩ [⟨4⟩, ⟨4⟩, ⟨3⟩] none true false ∧
      start.EndsOpen ⟨3⟩ [⟨5⟩, ⟨6⟩] 1 ∧
      ∃ enough, ∀ depthLimit ≥ enough,
        ∃ boxedFirst boxedLast,
          (start.limited depthLimit).GivesInTurn (boxThenReplace ⟨7⟩ [⟨5⟩, ⟨6⟩]) boxedFirst
            (replaceThenBox ⟨7⟩ [⟨5⟩, ⟨6⟩]) boxedLast ∧
          (start.limited depthLimit).BoxedButSpliced ⟨3⟩ [⟨4⟩, ⟨4⟩, ⟨3⟩] [⟨5⟩, ⟨6⟩] boxedFirst
            boxedLast := by
  intro start
  have reachable : start.Reachable := (Reachable.initial {} {}).steps (by decide +kernel)
  have acyclic : start.features.Acyclic :=
    FeatureTable.acyclic_of_index_lt (FeatureTable.forall_declared (by decide +kernel))
  have nodeEq : start.types.node ⟨7⟩ = .applied ⟨3⟩ [⟨4⟩, ⟨4⟩, ⟨3⟩] none true false := by
    decide +kernel
  have endsOpen : start.EndsOpen ⟨3⟩ [⟨5⟩, ⟨6⟩] 1 :=
    ⟨⟨6⟩, rfl, by decide +kernel, by decide +kernel⟩
  have owned : ∀ item ∈ [(⟨5⟩ : TypeId), ⟨6⟩], (start.types.tree item).Over
      (start.features.Owns ⟨3⟩) start.features.DeclaresPlain := by decide +kernel
  have manageable : ∀ item ∈ [(⟨5⟩ : TypeId), ⟨6⟩],
      Manageable start.features ⟨3⟩ (start.types.tree item) := fun item member =>
    .inr ((owned item member).mono fun _ => FeatureTable.Owns.fillable)
  obtain ⟨compares, returns⟩ := replaceFormals_asRef start reachable acyclic
    (FeatureTable.forall_declared (by decide +kernel)) ⟨7⟩ [⟨5⟩, ⟨6⟩] (by decide +kernel) nodeEq
    (by decide +kernel)
  obtain ⟨enough, returns⟩ := returns manageable
  have faithful : start.Faithful := reachable.faithful (by decide +kernel)
  refine ⟨nodeEq, endsOpen, enough, fun depthLimit deep => ?_⟩
  clear_value start
  have faithful := faithful.limited depthLimit
  obtain ⟨boxedFirst, boxedLast, gives⟩ :=
    returns (start.limited depthLimit) rfl rfl faithful deep
  exact ⟨boxedFirst, boxedLast, gives,
    compares (start.limited depthLimit) rfl rfl faithful boxedFirst boxedLast (.inl gives)⟩

/-- The open formal of a tuple is replaced by the two types of a pair, which are not boxed if
the formal was. -/
theorem replaceFormals_asRef_unboxed :
    let start := afterAll
      [.declare (.feature "any" none true), .construct (.instantiate ⟨1⟩ []),
        .declare (.feature "number" none false), .construct (.instantiate ⟨2⟩ []),
        .declare (.feature "flag" none false), .construct (.instantiate ⟨3⟩ []),
        .declare (.feature "tuple" none true), .declare (.formal ⟨4⟩ "N" ⟨3⟩ true {}),
        .construct (.instantiate ⟨4⟩ [⟨4⟩, ⟨5⟩])] {}
    ∃ boxedFirst boxedLast, start.GivesInTurn (boxThenReplace ⟨7⟩ [⟨6⟩]) boxedFirst
      (replaceThenBox ⟨7⟩ [⟨6⟩]) boxedLast ∧ boxedFirst = [⟨4⟩, ⟨5⟩] ∧ boxedFirst ≠ boxedLast := by
  intro start
  obtain ⟨boxedFirst, boxedLast, gives, good⟩ : ∃ boxedFirst boxedLast,
      start.GivesInTurn (boxThenReplace ⟨7⟩ [⟨6⟩]) boxedFirst (replaceThenBox ⟨7⟩ [⟨6⟩])
        boxedLast ∧ decide (boxedFirst = [⟨4⟩, ⟨5⟩] ∧ boxedFirst ≠ boxedLast) = true :=
    exists_givesInTurn_of_run
      (fun boxedFirst boxedLast : List TypeId =>
        decide (boxedFirst = [⟨4⟩, ⟨5⟩] ∧ boxedFirst ≠ boxedLast))
      (by decide +kernel)
  exact ⟨boxedFirst, boxedLast, gives, of_decide_eq_true good⟩

end Checker

end FeatureTypes

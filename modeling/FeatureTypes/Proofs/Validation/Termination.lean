import FeatureTypes.Proofs.Assignability.Ending
import FeatureTypes.Proofs.Checker.Upkeep
import FeatureTypes.Proofs.Validation.Soundness

/-!
# Types whose check comes to an end

To check a type is to check its actuals, and the constraints of the formals as well.
Constraints may be reached that refer to one another in a circle: such a check never comes
to an end.
-/

namespace FeatureTypes

variable {ty : TypeId}

/-! ## Ways that lead back -/

/-- Something related to itself can be reached. -/
def Circles (relation : TypeId → TypeId → Prop) (start : TypeId) : Prop :=
  ∃ inner, Relation.ReflTransGen relation start inner ∧ Relation.TransGen relation inner inner

variable {relation : TypeId → TypeId → Prop} {start : TypeId}

section

variable {types : TypeStore} (held : types.Holds start)
  (closed : ∀ ty next, relation ty next → types.Holds ty → types.Holds next)

include held closed

theorem holds_of_path (path : Relation.ReflTransGen relation start ty) : types.Holds ty := by
  induction path with
  | refl => exact held
  | tail _ leads ih => exact closed _ _ leads ih

theorem acc_of_not_circles (straight : ¬ Circles relation start) :
    Acc (fun next ty => relation ty next) start := by
  -- Being further on the way is a strict order, and so well-founded on the stored types.
  let further (next ty : TypeId) : Prop :=
    Relation.ReflTransGen relation start ty ∧ Relation.TransGen relation ty next
  have : IsStrictOrder TypeId further :=
    { irrefl := fun ty cycle => straight ⟨ty, cycle⟩
      trans := fun _ _ _ upper lower => ⟨lower.1, lower.2.trans upper.2⟩ }
  have finite : {ty : TypeId | types.Holds ty}.Finite :=
    (Set.finite_lt_nat types.size).preimage fun ⟨_⟩ _ ⟨_⟩ _ same => congrArg TypeId.mk same
  have wellFounded := Set.wellFoundedOn_iff.mp (finite.wellFoundedOn : Set.WellFoundedOn _ further)
  have accessible : ∀ ty, Relation.ReflTransGen relation start ty →
      Acc (fun next ty => relation ty next) ty := by
    intro ty
    induction ty using wellFounded.induction with
    | _ ty ih =>
      intro path
      refine .intro ty fun next leads => ?_
      have pathNext := path.tail leads
      exact ih next
        ⟨⟨path, .single leads⟩, holds_of_path held closed pathNext,
          holds_of_path held closed path⟩ pathNext
  exact accessible start .refl

end

theorem not_circles_of_acc (accessible : Acc (fun next ty => relation ty next) start) :
    ¬ Circles relation start := by
  have onTheWay : ∀ inner, Relation.ReflTransGen relation start inner →
      Acc (fun next ty => relation ty next) inner := by
    intro inner path
    induction path with
    | refl => exact accessible
    | tail _ leads ih => exact ih.inv leads
  rintro ⟨inner, path, cycle⟩
  induction onTheWay inner path with
  | intro inner _ ih =>
    obtain ⟨next, leads, back⟩ := Relation.TransGen.head'_iff.mp cycle
    exact ih next leads (path.tail leads) (.tail' back leads)

theorem TypeStore.node_of_not_holds {types : TypeStore} (absent : ¬ types.Holds ty) :
    types.node ty = .error := by
  have outside : types.entries[ty.index]? = none := by simpa [Holds, size] using absent
  simp [node, outside]

theorem not_circles_of_rank (types : TypeStore) {successors : TypeId → List TypeId}
    (rank : TypeId → Nat) (stored : ∀ ty, ¬ types.Holds ty → successors ty = [])
    (decreases : ∀ position : Fin types.size, ∀ next ∈ successors ⟨position⟩,
      rank next < rank ⟨position⟩) (start : TypeId) :
    ¬ Circles (fun ty next => next ∈ successors ty) start := by
  refine not_circles_of_acc (Subrelation.accessible ?_ (InvImage.accessible rank
    (Nat.lt_wfRel.wf.apply _)))
  intro next ty leads
  by_cases held : types.Holds ty
  · exact decreases ⟨ty.index, held⟩ next leads
  · rw [stored ty held] at leads
    cases leads

namespace Checker

open Filter

/-! ## What a check involves -/

/-- The types that are checked in the course of checking `ty`, each in itself: if the number of
actuals fits, the actuals and the constraints of the formals they are passed for. -/
def involved (checker : Checker) (ty : TypeId) : List TypeId :=
  match checker.types.node ty with
  | .applied id args _ _ _ =>
    match checker.features.get id with
    | .ok declared =>
      if declared.accepts args.length then
        (declared.formals.zip args).flatMap fun (formal, actual) =>
          actual :: [formal.constraint].filter (· ≠ ty)
      else []
    | .error _ => []
  | _ => []

/-- Checking `ty` involves checking `next`. -/
def Involves (checker : Checker) (ty next : TypeId) : Prop :=
  next ∈ checker.involved ty

instance (checker : Checker) (ty next : TypeId) : Decidable (checker.Involves ty next) :=
  inferInstanceAs (Decidable (next ∈ checker.involved ty))

section

variable {checker : Checker} {ty next : TypeId}

theorem involves_cases (involves : checker.Involves ty next) :
    ∃ id args outer isRef isThis, checker.types.node ty = .applied id args outer isRef isThis ∧
      ∃ declared, checker.features.get id = .ok declared ∧ declared.accepts args.length = true ∧
        ∃ formal actual, (formal, actual) ∈ declared.formals.zip args ∧
          (next = actual ∨ next = formal.constraint ∧ next ≠ ty) := by
  unfold Involves involved at involves
  split at involves
  next id args outer isRef isThis node =>
    split at involves
    next declared found =>
      split at involves
      next accepts =>
        obtain ⟨⟨formal, actual⟩, member, among⟩ := List.mem_flatMap.mp involves
        refine ⟨id, args, outer, isRef, isThis, node, declared, found, accepts, formal, actual,
          member, ?_⟩
        simpa using among
      next => cases involves
    next => cases involves
  next => cases involves

theorem involves_of_mem {id : FeatureId} {args : List TypeId} {outer : Option TypeId}
    {isRef isThis : Bool} (node : checker.types.node ty = .applied id args outer isRef isThis)
    {declared : Feature} (found : checker.features.get id = .ok declared)
    (accepts : declared.accepts args.length = true) {formal : Formal} {actual : TypeId}
    (member : (formal, actual) ∈ declared.formals.zip args)
    (among : next = actual ∨ next = formal.constraint ∧ next ≠ ty) : checker.Involves ty next := by
  simp only [Involves, involved, node, found, accepts, if_true, List.mem_flatMap]
  exact ⟨_, member, by simpa using among⟩

theorem Involves.held (involves : checker.Involves ty next) (wellFormed : checker.WellFormed)
    (held : checker.types.Holds ty) : checker.types.Holds next := by
  obtain ⟨id, args, outer, isRef, isThis, node, declared, found, _, formal, actual, member,
    among⟩ := involves_cases involves
  have ⟨constraintHeld, actualHeld⟩ := held_of_mem_zip wellFormed held node found member
  rcases among with rfl | ⟨rfl, _⟩
  · exact actualHeld
  · exact constraintHeld

theorem Involves.of_persists {later : Checker} (involves : checker.Involves ty next)
    (persists : checker.Persists later) (held : checker.types.Holds ty) :
    later.Involves ty next := by
  obtain ⟨id, args, outer, isRef, isThis, node, declared, found, accepts, formal, actual, member,
    among⟩ := involves_cases involves
  rw [← persists.types_extend.node_eq held] at node
  obtain ⟨companion, found'⟩ := persists.features_grow.get_eq id declared found
  exact involves_of_mem node found' accepts member among

theorem acc_involves_of_persists {later : Checker} (persists : checker.Persists later)
    (wellFormed : checker.WellFormed) (held : checker.types.Holds ty)
    (accessible : Acc (fun next ty => later.Involves ty next) ty) :
    Acc (fun next ty => checker.Involves ty next) ty := by
  induction accessible with
  | intro ty _ ih =>
    refine .intro ty fun next involves => ?_
    exact ih next (involves.of_persists persists held)
      (involves.held wellFormed held)

theorem acc_of_checkConstraintsWithin {after : Checker} (sound : checker.Sound)
    (held : checker.types.Holds ty) {span : Span} {depth : Nat} {result : TypeId}
    (run : (checkConstraintsWithin span depth ty).run checker = .ok result after) :
    Acc (fun next ty => checker.Involves ty next) ty := by
  induction depth generalizing checker after ty result with
  | zero => cases run
  | succ depth ih =>
    refine .intro ty fun next involves => ?_
    have nextHeld := involves.held sound.toWellFormed held
    obtain ⟨id, args, outer, isRef, isThis, node, declared, found, accepts, formal, actual,
      member, among⟩ := involves_cases involves
    obtain ⟨declared', found', _, examined⟩ :=
      examined_of_checkConstraintsWithin sound held run node
    obtain rfl := Except.ok.inj (found.symm.trans found')
    obtain ⟨inOrder, _, examined⟩ := examined accepts
    have gave : ∃ checked,
        Gave checker after (checkConstraintsWithin span depth next) checked := by
      rcases among with rfl | ⟨rfl, other⟩
      · obtain ⟨checked, gave, _⟩ := (examined _ member).actual_checked
        exact ⟨checked, gave⟩
      · exact (examined _ member).constraint_checked other
    obtain ⟨checked, first, last, firstSound, persists, runNext, _⟩ := gave
    exact acc_involves_of_persists persists sound.toWellFormed nextHeld
      (ih firstSound (persists.types_extend.holds nextHeld) runNext)

end

/-! ## Checks that come to an end -/

/-- The type is checked within the depth. -/
def ChecksWithin (start : Checker) (span : Span) (ty : TypeId) (depth : Nat) : Prop :=
  ∀ {checker : Checker}, (Terms.ending start).invariant checker →
    start.types.Extends checker.types →
    Realizes (.ending start) checker (checkConstraintsWithin span depth ty) (some ())
      fun _ _ _ => True

variable {start checker : Checker} {span : Span} {depth : Nat}

section

variable (holds : (Terms.ending start).invariant checker)
  (extension : start.types.Extends checker.types)

include holds extension

theorem ends_checkConstraintType {constraint : TypeId}
    (checks : constraint ≠ ty → start.ChecksWithin span constraint depth) :
    Realizes (.ending start) checker
      (checkConstraintType (checkConstraintsWithin span depth) ty constraint) (some ())
      fun _ _ _ => True := by
  unfold checkConstraintType
  split
  next other =>
    refine .follow (checks other holds extension) ?_
    exact fun _ _ holds' _ _ => .pure holds' trivial
  next => exact .pure holds trivial

variable (startCoherent : start.types.Coherent) {formal : Formal} {actual : TypeId}
  (constraintHeld : start.types.Holds formal.constraint) (actualHeld : start.types.Holds actual)
  (meets : start.MeetsWithin (start.types.tree actual) depth)

include startCoherent constraintHeld actualHeld meets

theorem ends_checkMeets :
    Realizes (.ending start) checker (checkMeets depth span formal actual) (some ())
      fun _ _ _ => True := by
  have actualDenotes : checker.types.Denotes actual (start.types.tree actual) :=
    .of_extends ⟨actualHeld, rfl⟩ startCoherent (Terms.coherent _ holds) extension
  refine .follow (meets holds (extension.holds constraintHeld) actualDenotes) ?_
  intro after answer holds₁ onward₁ _
  cases answer with
  | true => exact .pure holds₁ trivial
  | false =>
    have toAfter := extension.trans onward₁.types_extend
    refine .follow (ends_display holds₁ (toAfter.holds constraintHeld)) ?_
    intro after₂ _ holds₂ onward₂ _
    refine .follow (ends_display holds₂ (onward₂.types_extend.holds (toAfter.holds actualHeld))) ?_
    intro after₃ _ holds₃ _ _
    refine .follow (.report holds₃ trivial _ span) ?_
    exact fun _ _ holds₄ _ _ => .pure holds₄ trivial

theorem ends_checkActual
    (checks : ∀ next, next = actual ∨ next = formal.constraint ∧ next ≠ ty →
      start.ChecksWithin span next depth) :
    Realizes (.ending start) checker
      (checkActual (checkConstraintsWithin span depth) depth ty span formal actual) (some ())
      fun _ _ _ => True := by
  refine .follow (checks actual (.inl rfl) holds extension) ?_
  intro after₁ checked holds₁ onward₁ _
  have toFirst := extension.trans onward₁.types_extend
  refine .follow (ends_checkConstraintType holds₁ toFirst
    fun other => checks _ (.inr ⟨rfl, other⟩)) ?_
  intro after₂ _ holds₂ onward₂ _
  refine .follow (ends_checkMeets holds₂ (toFirst.trans onward₂.types_extend) startCoherent
    constraintHeld actualHeld meets) ?_
  exact fun _ _ holds₃ _ _ => .pure holds₃ trivial

end

theorem ends_checkActuals (startCoherent : start.types.Coherent) {pairs : List (Formal × TypeId)}
    (held : ∀ pair ∈ pairs, start.types.Holds pair.1.constraint ∧ start.types.Holds pair.2)
    (meets : ∀ pair ∈ pairs, start.MeetsWithin (start.types.tree pair.2) depth)
    (checks : ∀ pair ∈ pairs, ∀ next, next = pair.2 ∨ next = pair.1.constraint ∧ next ≠ ty →
      start.ChecksWithin span next depth) (holds : (Terms.ending start).invariant checker)
    (extension : start.types.Extends checker.types) :
    Realizes (.ending start) checker
      (checkActuals (checkConstraintsWithin span depth) depth ty span pairs) (some ())
      fun _ _ _ => True := by
  induction pairs generalizing checker with
  | nil => exact .pure holds trivial
  | cons pair rest ih =>
    rw [List.forall_mem_cons] at held meets checks
    refine .follow (ends_checkActual holds extension startCoherent held.1.1 held.1.2 meets.1
      checks.1) ?_
    intro after inOrder holds₁ onward₁ _
    refine .follow (ih held.2 meets.2 checks.2 holds₁
      (extension.trans onward₁.types_extend)) ?_
    exact fun _ _ holds₂ _ _ => .pure holds₂ trivial

theorem checksWithin_succ (wellFormed : start.WellFormed) (held : start.types.Holds ty)
    (involved : ∀ next ∈ start.involved ty,
      start.ChecksWithin span next depth ∧ start.MeetsWithin (start.types.tree next) depth) :
    start.ChecksWithin span ty (depth + 1) := by
  intro checker holds extension
  have coherent := wellFormed.types_canonical.toCoherent
  refine .follow (ends_recordEntry holds .constraints (extension.holds held)) ?_
  intro entered _ holds₁ onward₁ _
  have toEntered := extension.trans onward₁.types_extend
  refine .look (run_node entered ty) ?_
  rw [toEntered.node_eq held]
  cases node : start.types.node ty with
  | applied id args outer isRef isThis =>
    change Realizes _ _ _ (start.completed.feature id >>= fun _ => some ()) _
    refine .feature holds₁ id ?_
    intro declared found
    rw [holds₁.2] at found
    dsimp only
    split
    · refine .follow (.report holds₁ trivial _ span) ?_
      exact fun _ _ holds₂ _ _ => .pure holds₂ trivial
    next fits =>
      have accepts : declared.accepts args.length = true := by simpa using fits
      have involves : ∀ pair ∈ declared.formals.zip args, ∀ next,
          next = pair.2 ∨ next = pair.1.constraint ∧ next ≠ ty → start.Involves ty next :=
        fun pair member next among => involves_of_mem node found accepts member among
      refine .follow (ends_checkActuals coherent
        (fun pair member => held_of_mem_zip wellFormed held node found member)
        (fun pair member => (involved _ (involves pair member _ (.inl rfl))).2)
        (fun pair member next among => (involved _ (involves pair member next among)).1)
        holds₁ toEntered) ?_
      intro after inOrder holds₂ _ _
      split <;> exact .pure holds₂ trivial
  | _ => exact .pure holds₁ trivial

theorem eventually_checksWithin (wellFormed : start.WellFormed)
    (meets : ∀ inner, Relation.ReflTransGen start.Involves ty inner →
      ∀ᶠ depth in atTop, start.MeetsWithin (start.types.tree inner) depth)
    (accessible : Acc (fun next ty => start.Involves ty next) ty) (held : start.types.Holds ty)
    (span : Span) : ∀ᶠ depth in atTop, start.ChecksWithin span ty depth := by
  induction accessible with
  | intro ty _ ih =>
    have involved : ∀ᶠ depth in atTop, ∀ next ∈ start.involved ty,
        start.ChecksWithin span next depth ∧
          start.MeetsWithin (start.types.tree next) depth := by
      refine (eventually_all_finite (List.finite_toSet _)).mpr fun next leads => ?_
      exact (ih next leads (fun inner path => meets inner (.head leads path))
        (Involves.held leads wellFormed held)).and (meets next (.single leads))
    rw [← map_add_atTop_eq_nat 1, eventually_map]
    filter_upwards [involved] with depth involved
    exact checksWithin_succ wellFormed held involved

end Checker

/-! ## Reachable checkers -/

theorem FeatureTable.SelfTyped.anchored {table : FeatureTable} {ty : Ty}
    (selfTyped : table.SelfTyped ty) : ty.Anchored := by
  induction selfTyped with
  | intro _ _ ih => exact .applied ih

theorem FeatureTable.Built.anchored {table : FeatureTable} {types : TypeStore}
    (built : table.Built types) (coherent : types.Coherent) {heir : FeatureId} {declared : Feature}
    (found : table.get heir = .ok declared) {parent : Parent} (member : parent ∈ declared.parents) :
    (types.tree parent.ty).Anchored ∧
      (types.tree parent.ty).appliedFeature? = some parent.ancestor := by
  obtain ⟨held, ancestor, outer, _, node, _⟩ :=
    (built.orderly.each heir declared found).parent_spelled parent member
  have placed := (built.orderly.each heir declared found).parent_placed parent member
  have treeEq := TypeStore.tree_eq coherent held
  rw [node, Node.toTy] at treeEq
  rw [treeEq] at placed ⊢
  refine ⟨.applied fun around present => ?_, rfl⟩
  rw [present] at placed
  exact (placed _ _ _ _ _ rfl).anchored

namespace Checker

open Filter

theorem Sound.limited {checker : Checker} (sound : checker.Sound) (depthLimit : Nat) :
    (checker.limited depthLimit).Sound where
  __ := sound
  memos_stored on := { sound.memos_stored on with }

/-- The check of a type comes to an end if neither the types that it involves nor the views from
them lead back to themselves.  If the types involved do, it never has a result. -/
theorem checkConstraints_ends
    (checker : Checker) (reachable : checker.Reachable)
    (stratified : checker.features.Stratified checker.types) (ty : TypeId)
    (held : checker.types.Holds ty) (span : Span) :
    (¬ Circles checker.Involves ty →
      (∀ inner, Relation.ReflTransGen checker.Involves ty inner → ¬ Circles checker.Views inner) →
        checker.Faithful → ∃ enough, ∀ depthLimit ≥ enough, ∀ after,
          (checkConstraints ty span).run (checker.limited depthLimit) ≠
            .error .depthExceeded after) ∧
    (Circles checker.Involves ty → ∀ depthLimit result after,
      (checkConstraints ty span).run (checker.limited depthLimit) ≠ .ok result after) := by
  have sound := reachable.sound
  have wellFormed := sound.toWellFormed
  have coherent := wellFormed.types_canonical.toCoherent
  constructor
  · intro straight straightViews faithful
    have accessible := acc_of_not_circles held
      (fun _ _ involves => involves.held wellFormed) straight
    have meets : ∀ inner, Relation.ReflTransGen checker.Involves ty inner →
        ∀ᶠ depth in atTop, checker.MeetsWithin (checker.types.tree inner) depth := by
      intro inner path
      have innerHeld := holds_of_path held (fun _ _ involves => involves.held wellFormed) path
      exact eventually_meetsWithin wellFormed stratified
        (fun heir declared found parent => reachable.built.anchored coherent found)
        (viewable_tree wellFormed (acc_of_not_circles innerHeld
          (fun _ _ views => views.held wellFormed) (straightViews inner path)) innerHeld)
    obtain ⟨enough, deep⟩ := eventually_atTop.mp
      (eventually_checksWithin wellFormed meets accessible held span)
    refine ⟨enough, fun depthLimit large after run => ?_⟩
    rw [checkConstraints, run_withinLimit] at run
    have obeys := faithful.limited depthLimit _ (checker.follows_completed.of_eq rfl rfl)
    have ends := deep depthLimit large ⟨obeys, rfl⟩ (.refl _)
    rcases ends.2 _ _ run with impossible | excused
    · cases impossible
    · exact excused rfl
  · intro circles depthLimit result after run
    rw [checkConstraints, run_withinLimit] at run
    have accessible := acc_of_checkConstraintsWithin (sound.limited depthLimit) held run
    exact not_circles_of_acc accessible circles

/-- The elements of `sorted` are ordered among themselves: the constraint of the formal mentions
the formal. -/
theorem checkConstraints_ends_sorted :
    let start := afterAll
      [.declare (.feature "any" none true), .construct (.instantiate ⟨1⟩ []),
        .declare (.feature "ordered" none true), .declare (.formal ⟨2⟩ "O" ⟨3⟩ false {}),
        .declare (.feature "i32" none false), .construct (.instantiate ⟨3⟩ []),
        .declare (.parent ⟨3⟩ ⟨2⟩ [⟨5⟩]), .declare (.feature "sorted" none false),
        .construct (.formal ⟨⟨4⟩, 0⟩), .construct (.instantiate ⟨2⟩ [⟨7⟩]),
        .declare (.formal ⟨4⟩ "E" ⟨8⟩ false {}), .construct (.instantiate ⟨4⟩ [⟨5⟩])] {}
    start.Reachable ∧ start.features.Stratified start.types ∧
      start.types.node ⟨7⟩ = .formal ⟨⟨4⟩, 0⟩ false ∧
      start.types.node ⟨8⟩ = .applied ⟨2⟩ [⟨7⟩] none true false ∧
      start.involved ⟨9⟩ = [⟨5⟩, ⟨8⟩] ∧
      ∃ enough, ∀ depthLimit ≥ enough, ∀ after,
        (checkConstraints ⟨9⟩ {}).run (start.limited depthLimit) ≠
          .error .depthExceeded after := by
  intro start
  have reachable : start.Reachable := (Reachable.initial {} {}).steps (by decide +kernel)
  have stratified : start.features.Stratified start.types := by
    refine ⟨FeatureTable.acyclic_of_index_lt ?_, ?_, ?_, ?_⟩
    all_goals exact FeatureTable.forall_declared (by decide +kernel)
  have straight : ¬ Circles start.Involves ⟨9⟩ :=
    not_circles_of_rank start.types TypeId.index
      (fun _ absent => by simp [involved, TypeStore.node_of_not_holds absent]) (by decide +kernel) _
  have straightViews : ∀ inner, ¬ Circles start.Views inner :=
    not_circles_of_rank start.types (fun ty => if start.types.isFormal ty then 1 else 0)
      (fun _ absent => by simp [viewed, TypeStore.node_of_not_holds absent]) (by decide +kernel)
  obtain ⟨ends, _⟩ := checkConstraints_ends start reachable stratified ⟨9⟩ (by decide +kernel) {}
  exact ⟨reachable, stratified, by decide +kernel, by decide +kernel, by decide +kernel,
    ends straight (fun inner _ => straightViews inner) (reachable.faithful (by decide +kernel))⟩

/-! ## Constraints that refer to each other -/

section

variable {checker : Checker} (quiet : checker.journal.recording = false) (span : Span) (depth : Nat)
  {ty : TypeId}

include quiet

theorem run_recordEntry_quiet (check : Check) (ty : TypeId) :
    (recordEntry check ty).run checker = .ok () checker := by
  simp only [recordEntry, EStateM.run_bind, EStateM.run_get, quiet]
  rfl

theorem run_checkConstraintsWithin_void (node : checker.types.node ty = .void) :
    (checkConstraintsWithin span (depth + 1) ty).run checker = .ok ty checker := by
  simp only [checkConstraintsWithin, EStateM.run_bind, run_recordEntry_quiet quiet, run_node, node]
  rfl

theorem exhausted_of_involves {id : FeatureId} {outer : Option TypeId} {isRef isThis : Bool}
    (node : checker.types.node ty = .applied id [.void] outer isRef isThis)
    (voidNode : checker.types.node .void = .void) {constraint : TypeId}
    (involves : checker.Involves ty constraint) (present : constraint ≠ .void)
    (exhausted : ∃ after, (checkConstraintsWithin span depth constraint).run checker =
      .error .depthExceeded after) :
    ∃ after, (checkConstraintsWithin span (depth + 1) ty).run checker =
      .error .depthExceeded after := by
  obtain ⟨id', args, _, _, _, node', declared, found, accepts, formal, actual, member, among⟩ :=
    involves_cases involves
  obtain ⟨rfl, rfl, _⟩ := Node.applied.inj (node.symm.trans node')
  have zipEq : declared.formals.zip [TypeId.void] = [(formal, actual)] := by
    cases formals : declared.formals with
    | nil => simp [formals] at member
    | cons first rest =>
      rw [formals, List.zip_cons_cons, List.zip_nil_right] at member
      rw [List.zip_cons_cons, List.zip_nil_right, List.mem_singleton.mp member]
  obtain rfl : actual = .void := List.mem_singleton.mp (List.of_mem_zip member).2
  obtain ⟨rfl, other⟩ := among.resolve_left present
  have actualsExhausted : ∃ after, (checkActuals (checkConstraintsWithin span depth) depth ty span
      [(formal, .void)]).run checker = .error .depthExceeded after := by
    simp only [checkActuals, checkActual, checkConstraintType, if_pos other, EStateM.run_bind]
    cases depth with
    | zero => exact ⟨checker, rfl⟩
    | succ depth =>
      obtain ⟨after, exhausted⟩ := exhausted
      refine ⟨after, ?_⟩
      simp only [run_checkConstraintsWithin_void quiet span depth voidNode, exhausted]
  obtain ⟨after, actualsExhausted⟩ := actualsExhausted
  refine ⟨after, ?_⟩
  simp only [checkConstraintsWithin, EStateM.run_bind, run_recordEntry_quiet quiet, run_node, node,
    feature, run_readFeatures, found, answer, accepts, Bool.not_true, Bool.false_eq_true,
    if_false, zipEq, actualsExhausted]

end

/-- The formal of `f` is for what is a `g`, and the formal of `g` for what is an `f`.  To check
`f` is to check `g`, and the other way round. -/
theorem checkConstraints_never_ends :
    let start := afterAll
      [.declare (.feature "f" none false), .declare (.feature "g" none false),
        .construct (.applied ⟨2⟩ [.void] none false), .declare (.formal ⟨1⟩ "A" ⟨3⟩ false {}),
        .construct (.applied ⟨1⟩ [.void] none false), .declare (.formal ⟨2⟩ "B" ⟨5⟩ false {})] {}
    start.Reachable ∧ start.features.Stratified start.types ∧ start.features.FormalsClosed ∧
      (∀ id declared, start.features.get id = .ok declared → ∀ formal ∈ declared.formals,
        (start.types.feature? formal.constraint).isSome = true) ∧
      Circles start.Involves ⟨5⟩ ∧
      ∀ depthLimit, ∃ after, (checkConstraints ⟨5⟩ {}).run (start.limited depthLimit) =
        .error .depthExceeded after := by
  intro start
  have reachable : start.Reachable := (Reachable.initial {} {}).steps (by decide +kernel)
  have stratified : start.features.Stratified start.types := by
    refine ⟨FeatureTable.acyclic_of_index_lt ?_, ?_, ?_, ?_⟩
    all_goals exact FeatureTable.forall_declared (by decide +kernel)
  have closed : start.features.FormalsClosed := FeatureTable.forall_declared (by decide +kernel)
  have fInvolves : start.Involves ⟨5⟩ ⟨3⟩ := by decide +kernel
  have gInvolves : start.Involves ⟨3⟩ ⟨5⟩ := by decide +kernel
  refine ⟨reachable, stratified, closed, FeatureTable.forall_declared (by decide +kernel),
    ⟨⟨5⟩, .refl, .tail (.single fInvolves) gInvolves⟩, ?_⟩
  have quiet : start.journal.recording = false := by decide +kernel
  have voidNode : start.types.node .void = .void := by decide +kernel
  have fNode : start.types.node ⟨5⟩ = .applied ⟨1⟩ [.void] none false false := by decide +kernel
  have gNode : start.types.node ⟨3⟩ = .applied ⟨2⟩ [.void] none false false := by decide +kernel
  clear_value start
  intro depthLimit
  have quiet : (start.limited depthLimit).journal.recording = false := quiet
  have exhausted : ∀ depth,
      (∃ after, (checkConstraintsWithin {} depth ⟨5⟩).run (start.limited depthLimit) =
        .error .depthExceeded after) ∧
      ∃ after, (checkConstraintsWithin {} depth ⟨3⟩).run (start.limited depthLimit) =
        .error .depthExceeded after := by
    intro depth
    induction depth with
    | zero => exact ⟨⟨_, rfl⟩, ⟨_, rfl⟩⟩
    | succ depth inductionHypothesis =>
      obtain ⟨fExhausted, gExhausted⟩ := inductionHypothesis
      exact ⟨exhausted_of_involves quiet {} depth fNode voidNode fInvolves (by decide) gExhausted,
        exhausted_of_involves quiet {} depth gNode voidNode gInvolves (by decide) fExhausted⟩
  rw [checkConstraints, run_withinLimit]
  exact (exhausted _).1

end Checker

end FeatureTypes

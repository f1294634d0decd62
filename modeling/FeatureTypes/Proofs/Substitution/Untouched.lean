import Mathlib.Order.Filter.Finite
import FeatureTypes.Proofs.Lockstep.Marked
import FeatureTypes.Proofs.Substitution.Filled

/-!
# Substitution leaves other formals alone

Where a type mentions neither formals of a feature nor formals of its ancestors, a
substitution through the feature hands back the very type.
-/

namespace FeatureTypes

variable {inner : Substituter}

section

variable {types : TypeStore} (coherent : types.Coherent) {formals : FormalId → Prop}
  {features : FeatureId → Prop} {id : TypeId} (held : types.Holds id)
  (among : (types.tree id).Among formals features)

include coherent held among

theorem TypeStore.among_child {child : TypeId} (member : child ∈ (types.node id).children) :
    (types.tree child).Among formals features := by
  intro part occurs
  apply among
  rw [tree_eq coherent held]
  exact Node.mem_parts_toTy member occurs

theorem TypeStore.among_node : ((types.node id).toTy types.tree).RootAmong formals features := by
  rw [← tree_eq coherent held]
  exact among _ (Ty.self_mem_parts _)

end

/-! ## Substitutions that concern no formal -/

/-- The actuals fit, and the target mentions no metatype and no formal of the owner or of its
ancestors. -/
structure FeatureTable.Bypasses (table : FeatureTable) (types : TypeStore)
    (key : SubstitutionKey) : Prop where
  grounded : table.Grounded key.owner
  accepts : table.Accepts key.owner key.actuals.length
  held : types.Holds key.target
  mentions : types.mentionsFormal key.target = true
  spared : (types.tree key.target).Among (table.Spares key.owner) table.DeclaresPlain

namespace Checker

open Filter

/-- Nothing changed but the memo tables and the journal. -/
structure Untouched (checker after : Checker) : Prop where
  types_eq : after.types = checker.types
  features_eq : after.features = checker.features
  options_eq : after.options = checker.options
  reports_eq : after.reports = checker.reports

namespace Untouched

theorem refl (checker : Checker) : checker.Untouched checker :=
  ⟨rfl, rfl, rfl, rfl⟩

theorem trans {first second third : Checker} (lower : first.Untouched second)
    (upper : second.Untouched third) : first.Untouched third :=
  ⟨upper.types_eq.trans lower.types_eq, upper.features_eq.trans lower.features_eq,
    upper.options_eq.trans lower.options_eq, upper.reports_eq.trans lower.reports_eq⟩

end Untouched

/-- The checker has the given features and types, and remembers the target itself for every
substitution that concerns none of its formals. -/
structure Poised (table : FeatureTable) (types : TypeStore) (checker : Checker) : Prop where
  features_eq : checker.features = table
  types_eq : checker.types = types
  memos_same : checker.options.memoize = true → ∀ (key : SubstitutionKey) (result : TypeId),
    checker.byOwner.entries[key]? = some result → table.Bypasses types key → result = key.target

/-- The operation gives the result and changes nothing but the memo tables and the journal. -/
def Gives {α : Type} (table : FeatureTable) (types : TypeStore) (checker : Checker)
    (operation : CheckM α) (result : α) : Prop :=
  ∃ after, operation.run checker = .ok result after ∧ after.Poised table types ∧
    checker.Untouched after

variable {table : FeatureTable} {types : TypeStore} {checker : Checker}

namespace Gives

variable {α β : Type}

theorem pure (poised : checker.Poised table types) (result : α) :
    Gives table types checker (Pure.pure result) result :=
  ⟨checker, rfl, poised, .refl checker⟩

theorem bind {operation : CheckM α} {next : α → CheckM β} {middle : α} {result : β}
    (first : Gives table types checker operation middle)
    (rest : ∀ after : Checker, after.Poised table types →
      Gives table types after (next middle) result) :
    Gives table types checker (operation >>= next) result := by
  obtain ⟨after, run, poised, untouched⟩ := first
  obtain ⟨after', run', poised', untouched'⟩ := rest after poised
  refine ⟨after', ?_, poised', untouched.trans untouched'⟩
  simp only [EStateM.run_bind, run, run']

theorem look {operation : CheckM α} {next : α → CheckM β} {middle : α} {result : β}
    (run : operation.run checker = .ok middle checker)
    (rest : Gives table types checker (next middle) result) :
    Gives table types checker (operation >>= next) result := by
  obtain ⟨after, run', holds⟩ := rest
  refine ⟨after, ?_, holds⟩
  simp only [EStateM.run_bind, run, run']

theorem record (poised : checker.Poised table types) (event : Event) :
    Gives table types checker (record event) () := by
  refine ⟨_, run_record checker event, ?_⟩
  split
  · exact ⟨⟨poised.features_eq, poised.types_eq, poised.memos_same⟩, ⟨rfl, rfl, rfl, rfl⟩⟩
  · exact ⟨poised, .refl checker⟩

theorem memoized (poised : checker.Poised table types) {key : SubstitutionKey}
    (bypasses : table.Bypasses types key) {compute : CheckM TypeId}
    (computes : ∀ counted : Checker, counted.Poised table types →
      Gives table types counted compute key.target) :
    Gives table types checker (memoized (recallByOwner key) (rememberByOwner key) compute)
      key.target := by
  unfold Gives
  cases flag : checker.options.memoize with
  | false =>
    rw [run_memoized_off flag]
    exact computes checker poised
  | true =>
    have recalled : ({ checker with byOwner := (checker.byOwner.consult key).2 } :
        Checker).Poised table types :=
      ⟨poised.features_eq, poised.types_eq, by simpa using poised.memos_same⟩
    rw [run_memoized_on flag]
    simp only [EStateM.run_bind, run_recallByOwner]
    cases found : checker.byOwner.entries[key]? with
    | some result =>
      obtain rfl := poised.memos_same flag key result found bypasses
      exact ⟨_, rfl, recalled, ⟨rfl, rfl, rfl, rfl⟩⟩
    | none =>
      obtain ⟨after, run, poised', untouched⟩ := computes _ recalled
      simp only [EStateM.run_bind, run]
      refine ⟨_, rfl, ⟨poised'.features_eq, poised'.types_eq, ?_⟩, { untouched with }⟩
      intro on key' result present bypasses'
      rcases Memo.remember_cases _ present with ⟨sameKey, rfl⟩ | old
      · rw [SubstitutionKey.eq_of_compare sameKey]
      · exact poised'.memos_same on key' result old bypasses'

end Gives

/-- Whatever the fitting actuals are, the substituter gives the type itself. -/
def HandsBack (table : FeatureTable) (types : TypeStore) (substitute : Substituter)
    (owner : FeatureId) (id : TypeId) : Prop :=
  ∀ checker : Checker, checker.Poised table types → ∀ actuals : List TypeId,
    table.Accepts owner actuals.length →
      Gives table types checker (substitute owner actuals id) id

/-! ## Lists -/

section

variable {inner : Substituter} {owner : FeatureId} {declared : Feature}
  (found : table.get owner = .ok declared)

include found

theorem Poised.run_feature (poised : checker.Poised table types) :
    (feature owner).run checker = .ok declared checker :=
  Checker.run_feature checker (by rw [poised.features_eq, found])

omit found in
theorem run_trailingOpen?_of_foreign {id : TypeId}
    (foreign : ∀ formal, checker.types.formalId? id = some formal → formal.feature ≠ owner)
    (rest : List TypeId) : (trailingOpen? owner id rest).run checker = .ok none checker := by
  unfold trailingOpen?
  split
  · simp only [openPosition?, EStateM.run_bind, run_readTypes]
    cases isFormal : checker.types.formalId? id with
    | none => rfl
    | some formal => simp [foreign formal isFormal]
  · rfl

variable {actuals : List TypeId} (accepts : declared.accepts actuals.length = true)

include accepts

theorem gives_substituteEach {list : List TypeId}
    (foreign : ∀ id ∈ list, ∀ formal, types.formalId? id = some formal → formal.feature ≠ owner)
    (handedBack : ∀ id ∈ list, HandsBack table types inner owner id)
    (poised : checker.Poised table types) :
    Gives table types checker (substituteEach inner owner actuals list) list := by
  induction list generalizing checker with
  | nil => exact .pure poised []
  | cons id rest ih =>
    rw [List.forall_mem_cons] at foreign handedBack
    refine .look (run_trailingOpen?_of_foreign (poised.types_eq ▸ foreign.1) rest) ?_
    refine .bind (handedBack.1 checker poised actuals ⟨declared, found, accepts⟩) ?_
    intro after poised'
    refine .bind (ih foreign.2 handedBack.2 poised') ?_
    intro after' poised''
    exact .pure poised'' _

omit found in
theorem actuals_eq_of_areFormals (wellFormed : declared.WellFormed types owner) {list : List TypeId}
    (foreign : ∀ id ∈ list, ∀ formal, types.formalId? id = some formal → formal.feature ≠ owner)
    (nodesEq : list.map types.node =
      declared.formals.map fun formal => Node.formal formal.id false) : actuals = list := by
  have noFormals : declared.formals = [] := by
    cases formals : declared.formals with
    | nil => rfl
    | cons formal others =>
      obtain ⟨id, rest, rfl, nodeEq, _⟩ := List.map_eq_cons_iff.mp (formals ▸ nodesEq)
      have idEq := wellFormed.formal_id 0 formal (by rw [formals]; rfl)
      have isFormal : types.formalId? id = some formal.id := by
        rw [TypeStore.formalId?, nodeEq]
      exact absurd (congrArg FormalId.feature idEq)
        (foreign id List.mem_cons_self formal.id isFormal)
  have noActuals : actuals = [] := by
    have counted := Feature.eq_length_of_accepts accepts (by simp [Feature.endsOpen, noFormals])
    rwa [noFormals, List.length_nil, List.length_eq_zero_iff] at counted
  have noList : list = [] := by simpa [noFormals] using nodesEq
  rw [noActuals, noList]

theorem gives_substituteListBy (wellFormed : declared.WellFormed types owner) {list : List TypeId}
    (foreign : ∀ id ∈ list, ∀ formal, types.formalId? id = some formal → formal.feature ≠ owner)
    (handedBack : ∀ id ∈ list, HandsBack table types inner owner id)
    (poised : checker.Poised table types) :
    Gives table types checker (substituteListBy inner owner actuals list) list := by
  refine .look (poised.run_feature found) ?_
  refine .look (run_readTypes checker _) ?_
  split
  next same =>
    have nodesEq := of_decide_eq_true same
    rw [poised.types_eq] at nodesEq
    rw [actuals_eq_of_areFormals accepts wellFormed foreign nodesEq]
    exact .pure poised list
  next => exact gives_substituteEach found accepts foreign handedBack poised

end

/-! ## One step -/

theorem gives_parents {parents : List Parent} {id : TypeId}
    (handedBack : ∀ parent ∈ parents, HandsBack table types inner parent.ancestor id)
    (accepted : ∀ parent ∈ parents, table.Accepts parent.ancestor parent.actuals.length)
    (poised : checker.Poised table types) :
    Gives table types checker
      (parents.foldlM (fun id parent => inner parent.ancestor parent.actuals id) id) id := by
  induction parents generalizing checker with
  | nil => exact .pure poised id
  | cons parent rest ih =>
    rw [List.forall_mem_cons] at handedBack accepted
    rw [List.foldlM_cons]
    refine .bind (handedBack.1 checker poised parent.actuals accepted.1) ?_
    intro after poised'
    exact ih handedBack.2 accepted.2 poised'

section

variable (canonical : types.Canonical) (wellFormed : table.WellFormed types) {owner : FeatureId}
  {id : TypeId} (held : types.Holds id)
  (spared : (types.tree id).Among (table.Spares owner) table.DeclaresPlain)

include canonical wellFormed held spared

theorem gives_substituteParts {declared : Feature} (found : table.get owner = .ok declared)
    {actuals : List TypeId} (accepts : declared.accepts actuals.length = true) {feature : FeatureId}
    {args : List TypeId} {outer : Option TypeId} {isRef isThis : Bool}
    (node : types.node id = .applied feature args outer isRef isThis)
    (handedBack : ∀ child ∈ (types.node id).children, HandsBack table types inner owner child)
    (poised : checker.Poised table types) (target : TypeId) :
    Gives table types checker (substituteParts inner owner actuals target id args outer) id := by
  have coherent := canonical.toCoherent
  have foreign : ∀ child ∈ (types.node id).children, ∀ formal,
      types.formalId? child = some formal → formal.feature ≠ owner := by
    intro child member formal isFormal
    have root := TypeStore.among_node coherent (coherent.child_holds held member)
      (TypeStore.among_child coherent held spared member)
    rw [TypeStore.formalId?] at isFormal
    split at isFormal
    next formal' boxed childNode =>
      rw [childNode] at root
      obtain rfl := Option.some.inj isFormal
      exact FeatureTable.Spares.foreign root
    next => cases isFormal
  have plain : table.DeclaresPlain feature := by
    have root := TypeStore.among_node coherent held spared
    rwa [node] at root
  rw [node] at handedBack foreign
  refine .bind (gives_substituteListBy found accepts (wellFormed owner declared found)
    (fun arg member => foreign arg (List.mem_append_left _ member))
    (fun arg member => handedBack arg (List.mem_append_left _ member)) poised) ?_
  intro after₁ poised₁
  have outerGiven : Gives table types after₁ (outer.mapM (inner owner actuals)) outer := by
    cases outer with
    | none => exact .pure poised₁ none
    | some around =>
      refine .bind (handedBack around (List.mem_append_right _ (by simp)) after₁ poised₁ actuals
        ⟨declared, found, accepts⟩) ?_
      intro after₂ poised₂
      exact .pure poised₂ _
  refine .bind outerGiven ?_
  intro after₂ poised₂
  have notMetatype : (isMetatype id).run after₂ = .ok false after₂ := by
    obtain ⟨declared', found', notCompanion⟩ := plain
    simp only [isMetatype, EStateM.run_bind, run_readTypes, TypeStore.feature?, poised₂.types_eq,
      node, poised₂.run_feature found', notCompanion]
    rfl
  refine .bind (.look notMetatype (.pure poised₂ _)) ?_
  intro after₃ poised₃
  rw [if_pos ⟨rfl, rfl⟩]
  exact .pure poised₃ id

theorem handsBack_step
    (accepted : ∀ declared, table.get owner = .ok declared → ∀ parent ∈ declared.parents,
      table.Accepts parent.ancestor parent.actuals.length)
    (fromParents : ∀ declared, table.get owner = .ok declared → ∀ parent ∈ declared.parents,
      HandsBack table types inner parent.ancestor id)
    (fromParts : ∀ child ∈ (types.node id).children, HandsBack table types inner owner child) :
    HandsBack table types (substituteStep inner) owner id := by
  rintro checker poised actuals ⟨declared, found, accepts⟩
  refine .look (poised.run_feature found) ?_
  refine .bind (.record poised _) ?_
  intro after₁ poised₁
  refine .bind (gives_parents (fromParents declared found) (accepted declared found) poised₁) ?_
  intro after₂ poised₂
  refine .look (run_node after₂ id) ?_
  have root := TypeStore.among_node canonical.toCoherent held spared
  rw [poised₂.types_eq]
  cases node : types.node id with
  | formal formal boxed =>
    rw [node] at root
    dsimp only
    rw [substituteFormal, if_pos (FeatureTable.Spares.foreign root)]
    exact .pure poised₂ id
  | applied feature args outer isRef isThis =>
    exact gives_substituteParts canonical wellFormed held spared found accepts node fromParts
      poised₂ id
  | _ => exact .pure poised₂ id

omit canonical wellFormed in
/-- What is remembered is the target too. -/
theorem handsBack_within (grounded : table.Grounded owner) {depth : Nat}
    (step : HandsBack table types (substituteStep (substituteWithin depth)) owner id) :
    HandsBack table types (substituteWithin (depth + 1)) owner id := by
  intro checker poised actuals accepts
  have fits : (actualsMatch owner actuals).run checker = .ok true checker := by
    obtain ⟨declared, found, accepted⟩ := accepts
    rw [run_actualsMatch checker (poised.features_eq ▸ found), accepted]
  refine .look fits ?_
  refine .look (run_expect checker .actualsMatch true) ?_
  refine .look (run_readTypes checker _) ?_
  rw [poised.types_eq]
  split
  · exact .pure poised id
  next mentions =>
    exact .memoized poised ⟨grounded, accepts, held, by simpa using mentions, spared⟩
      fun counted poised' => step counted poised' actuals accepts

end

/-! ## All features -/

theorem eventually_within (property : Substituter → Prop)
    (within : ∀ depth, property (substituteStep (substituteWithin depth)) →
      property (substituteWithin (depth + 1)))
    (step : ∀ᶠ depth in atTop, property (substituteStep (substituteWithin depth))) :
    ∀ᶠ depth in atTop, property (substituteWithin depth) := by
  rw [← map_add_atTop_eq_nat 1, eventually_map]
  exact step.mono within

section

variable (canonical : types.Canonical) (wellFormed : table.WellFormed types)

include canonical wellFormed

theorem eventually_handsBack_step {owner : FeatureId} (grounded : table.Grounded owner)
    {id : TypeId} (held : types.Holds id)
    (spared : (types.tree id).Among (table.Spares owner) table.DeclaresPlain) :
    ∀ᶠ depth in atTop,
      HandsBack table types (substituteStep (substituteWithin depth)) owner id := by
  -- From the ancestors down, and for each feature from the parts of a type up.
  refine grounded.induction (motive := fun owner => ∀ {id : TypeId}, types.Holds id →
    (types.tree id).Among (table.Spares owner) table.DeclaresPlain →
      ∀ᶠ depth in atTop,
        HandsBack table types (substituteStep (substituteWithin depth)) owner id) ?_ held spared
  intro owner grounded fromAncestors id held spared
  have within : ∀ {owner : FeatureId} {id : TypeId}, table.Grounded owner → types.Holds id →
      (types.tree id).Among (table.Spares owner) table.DeclaresPlain →
      (∀ᶠ depth in atTop,
        HandsBack table types (substituteStep (substituteWithin depth)) owner id) →
        ∀ᶠ depth in atTop, HandsBack table types (substituteWithin depth) owner id :=
    fun grounded held spared => eventually_within (HandsBack table types · _ _) fun _ =>
      handsBack_within held spared grounded
  obtain ⟨position⟩ := id
  induction position using Nat.strongRecOn with
  | ind position ih =>
    have coherent := canonical.toCoherent
    have fromParts : ∀ child ∈ (types.node ⟨position⟩).children, ∀ᶠ depth in atTop,
        HandsBack table types (substituteWithin depth) owner child := by
      intro child member
      have childHeld := coherent.child_holds held member
      have childSpared := TypeStore.among_child coherent held spared member
      exact within grounded childHeld childSpared
        (ih child.index (coherent.child_lt _ held child member) childHeld
          childSpared)
    have fromParents : ∀ parent ∈ (table.get owner).toOption.elim [] Feature.parents,
        ∀ᶠ depth in atTop,
          HandsBack table types (substituteWithin depth) parent.ancestor ⟨position⟩ := by
      intro parent member
      cases found : table.get owner with
      | error failure => simp [found, Except.toOption] at member
      | ok declared =>
        rw [found] at member
        have hasParent : table.HasParent owner parent.ancestor :=
          ⟨declared, found, parent, member, rfl⟩
        have parentSpared := spared.mono fun id spared =>
          FeatureTable.Spares.parent spared hasParent
        exact within (grounded.of_inherits (.single hasParent)) held parentSpared
          (fromAncestors parent.ancestor hasParent held parentSpared)
    filter_upwards [(eventually_all_finite (List.finite_toSet _)).mpr fromParts,
      (eventually_all_finite (List.finite_toSet _)).mpr fromParents]
      with depth fromParts fromParents
    refine handsBack_step canonical wellFormed held spared
      (fun declared found => grounded.accepted owner declared .refl found) ?_ fromParts
    intro declared found parent member
    apply fromParents
    simpa [found, Except.toOption] using member

end

/-! ## Checkers that remember what is right -/

theorem Faithful.poised (faithful : checker.Faithful) :
    checker.Poised checker.features checker.types := by
  refine ⟨rfl, rfl, fun on key result found bypasses => ?_⟩
  have obeys := faithful checker.signature checker.follows_signature
  have coherent := obeys.types_canonical.toCoherent
  obtain ⟨actuals, target, ty, denote, ⟨_, rfl⟩, resultDenotes, prescribed⟩ :=
    (obeys.memos_mean on).byOwner_means key result found
  -- The declarations prescribe the target itself.
  have kept := substitute_of_smooth
    (smooth_of_spared faithful.wellFormed bypasses.grounded bypasses.spared
      (denote.length_eq ▸ bypasses.accepts) : checker.smooth (fun _ => True) _ _ _ = _)
  have mentions := bypasses.mentions
  rw [TypeStore.mentionsFormal_eq coherent bypasses.held] at mentions
  rw [Signature.substitute_of_open mentions] at kept
  obtain rfl := Option.some.inj (prescribed.symm.trans kept)
  exact (resultDenotes.inj ⟨bypasses.held, rfl⟩ coherent).mpr rfl

/-- Substituting formals that do not occur gives the type itself and changes neither types nor
reports. -/
theorem substitute_of_spared
    (start : Checker) (wellFormed : start.WellFormed) (acyclic : start.features.Acyclic)
    (accepted : ∀ id declared, start.features.get id = .ok declared →
      ∀ parent ∈ declared.parents,
        start.features.Accepts parent.ancestor parent.actuals.length)
    (owner : FeatureId) (actuals : List TypeId)
    (accepts : start.features.Accepts owner actuals.length)
    (target : TypeId) (held : start.types.Holds target)
    (spared : (start.types.tree target).Among (start.features.Spares owner)
      start.features.DeclaresPlain) :
    ∃ enough, ∀ checker : Checker, checker.types = start.types →
      checker.features = start.features → checker.Faithful → enough ≤ checker.options.depthLimit →
        ∃ after, (substitute owner actuals target).run checker = .ok target after ∧
          checker.Untouched after := by
  have grounded : start.features.Grounded owner :=
    ⟨fun id _ => acyclic id, fun id declared _ => accepted id declared⟩
  obtain ⟨enough, handsBack⟩ := eventually_atTop.mp
    (eventually_within (HandsBack start.features start.types · owner target)
      (fun _ => handsBack_within held spared grounded)
      (eventually_handsBack_step wellFormed.types_canonical wellFormed.features_wellFormed grounded
        held spared))
  refine ⟨enough, fun checker typesEq featuresEq faithful deep => ?_⟩
  have poised := faithful.poised
  rw [featuresEq, typesEq] at poised
  obtain ⟨after, run, _, untouched⟩ := handsBack _ deep checker poised actuals accepts
  exact ⟨after, run, untouched⟩

/-- The owner inherits from a feature with an open formal.  The target has a formal of another
feature in it, and a type of an instance, an error type and the type of no value. -/
theorem substitute_of_spared_pair :
    let start := afterAll
      [.declare (.feature "any" none true), .construct (.instantiate ⟨1⟩ []),
        .declare (.feature "tuple" none true), .declare (.formal ⟨2⟩ "T" ⟨3⟩ true {}),
        .declare (.feature "pair" none true), .declare (.formal ⟨3⟩ "A" ⟨3⟩ false {}),
        .declare (.parent ⟨3⟩ ⟨2⟩ [⟨5⟩, ⟨3⟩]),
        .declare (.feature "other" none false), .declare (.formal ⟨4⟩ "X" ⟨3⟩ false {}),
        .construct (.asThis ⟨3⟩),
        .construct (.applied ⟨4⟩ [⟨7⟩, ⟨8⟩, .error, .void] (some ⟨3⟩) false)] {}
    start.options.memoize = true ∧ start.types.mentionsFormal ⟨9⟩ = true ∧
      ∃ enough, ∀ depthLimit ≥ enough, ∃ after,
        (substitute ⟨3⟩ [⟨3⟩] ⟨9⟩).run (start.limited depthLimit) = .ok ⟨9⟩ after ∧
        after.types.size = start.types.size := by
  intro start
  have reachable : start.Reachable := (Reachable.initial {} {}).steps (by decide +kernel)
  have acyclic : start.features.Acyclic :=
    FeatureTable.acyclic_of_index_lt (FeatureTable.forall_declared (by decide +kernel))
  have closed : ∀ id declared, start.features.get id = .ok declared →
      id ∈ [(⟨3⟩ : FeatureId), ⟨2⟩] → ∀ parent ∈ declared.parents,
        parent.ancestor ∈ [(⟨3⟩ : FeatureId), ⟨2⟩] :=
    FeatureTable.forall_declared (by decide +kernel)
  have mentioned : (start.types.tree ⟨9⟩).Among (·.feature ∉ [(⟨3⟩ : FeatureId), ⟨2⟩])
      start.features.DeclaresPlain := by decide +kernel
  obtain ⟨enough, runs⟩ := substitute_of_spared start reachable.sound.toWellFormed acyclic
    (FeatureTable.forall_declared (by decide +kernel)) ⟨3⟩ [⟨3⟩] (by decide +kernel) ⟨9⟩
    (by decide +kernel)
    (mentioned.mono fun _ foreign inherits => foreign
      (FeatureTable.mem_of_inherits closed (by simp) inherits))
  have faithful : start.Faithful := reachable.faithful (by decide +kernel)
  refine ⟨by decide +kernel, by decide +kernel, enough, fun depthLimit deep => ?_⟩
  clear_value start
  obtain ⟨after, run, untouched⟩ :=
    runs (start.limited depthLimit) rfl rfl (faithful.limited depthLimit) deep
  exact ⟨after, run, congrArg TypeStore.size untouched.types_eq⟩

end Checker

end FeatureTypes

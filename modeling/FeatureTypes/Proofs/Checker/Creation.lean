import FeatureTypes.Proofs.Checker.Registry

/-!
# Companions can be created
-/

namespace FeatureTypes

variable {companion : FeatureId}

namespace FeatureTable

variable {table table' : FeatureTable}

theorem Surrounds.declared (lawful : table.Lawful) {outer around : FeatureId}
    (surrounds : table.Surrounds outer around) : ∃ declared, table.get around = .ok declared := by
  by_cases excluded : outer = .universe ∨ table.originOf outer ≠ none
  · rw [surrounds.2 excluded]
    exact lawful.universe_declared
  · rw [not_or, not_not] at excluded
    have isCompanion := surrounds.1 excluded.1 excluded.2
    obtain ⟨declared, found, _⟩ :=
      exists_of_originOf ((lawful.companion_iff outer around).mp isCompanion)
    exact ⟨declared, found⟩

end FeatureTable

theorem Feature.Numbered.pairwise {id : FeatureId} {declared : Feature}
    (numbered : declared.Numbered id) :
    declared.formals.Pairwise fun earlier _ => earlier.isOpen = false := by
  rw [List.pairwise_iff_getElem]
  intro position later bound laterBound earlier
  have isLast := (numbered position _ (List.getElem?_eq_getElem bound)).2
  rw [← Bool.not_eq_true]
  intro isOpen
  have last := isLast isOpen
  omega

namespace Checker

variable {α β : Type} {checker : Checker}

def Finishes (checker : Checker) (operation : CheckM α) : Prop :=
  ∃ result after, operation.run checker = .ok result after

namespace Finishes

theorem pure (result : α) : Finishes checker (Pure.pure result) :=
  ⟨result, checker, rfl⟩

theorem step {operation : CheckM α} {next : α → CheckM β} {result : α} {after : Checker}
    (run : operation.run checker = .ok result after) (rest : Finishes after (next result)) :
    Finishes checker (operation >>= next) := by
  obtain ⟨result', after', run'⟩ := rest
  refine ⟨result', after', ?_⟩
  rw [EStateM.run_bind, run]
  exact run'

theorem bind {operation : CheckM α} {next : α → CheckM β} (first : Finishes checker operation)
    (rest : ∀ result after, operation.run checker = .ok result after →
      Finishes after (next result)) : Finishes checker (operation >>= next) := by
  obtain ⟨result, after, run⟩ := first
  exact .step run (rest result after run)

theorem onTypes (operation : TypeStore → α × TypeStore) : Finishes checker (onTypes operation) :=
  ⟨_, _, run_onTypes checker operation⟩

theorem onFeatures {operation : FeatureTable → Except Failure (α × FeatureTable)}
    {result : α × FeatureTable} (succeeds : operation checker.features = .ok result) :
    Finishes checker (onFeatures operation) := by
  refine ⟨result.1, { checker with features := result.2 }, ?_⟩
  rw [run_onFeatures, succeeds]

theorem modifyFeature {id : FeatureId} {declared : Feature}
    (found : checker.features.get id = .ok declared) (edit : Feature → Feature) :
    Finishes checker (modifyFeature id edit) := by
  apply Finishes.onFeatures
  rw [FeatureTable.modify, found]
  rfl

theorem record (event : Event) : Finishes checker (record event) :=
  ⟨(), _, run_record checker event⟩

theorem mapM {operation : α → CheckM β} (each : ∀ checker item, Finishes checker (operation item))
    (list : List α) : Finishes checker (list.mapM operation) := by
  induction list generalizing checker with
  | nil => exact .pure []
  | cons head tail ih =>
    rw [List.mapM_cons]
    exact .bind (each checker head) fun _ _ _ =>
      .bind ih fun _ _ _ => .pure _

end Finishes

/-! ## Types of features -/

section

variable (nested : checker.features.Nested) {id : FeatureId}
  (isDeclared : ∃ declared, checker.features.get id = .ok declared)

include nested isDeclared

theorem finishes_outerTypeBy {typeOf : FeatureId → CheckM TypeId}
    (each : ∀ outer, outer.index < id.index → (∃ around, checker.features.get outer = .ok around) →
      Finishes checker (typeOf outer)) : Finishes checker (outerTypeBy typeOf id) := by
  obtain ⟨declared, found⟩ := isDeclared
  refine .step (run_feature checker found) ?_
  cases isOuter : declared.outer with
  | none => exact .pure none
  | some outer =>
    obtain ⟨below, ⟨around, foundAround⟩, _⟩ := nested.inside id declared outer found isOuter
    refine .step (run_feature checker foundAround) ?_
    split
    · exact .pure none
    · exact .bind (each outer below ⟨around, foundAround⟩) fun _ _ _ => .pure _

theorem finishes_selfTypeWithin {depth : Nat} (deep : id.index < depth) :
    Finishes checker (selfTypeWithin depth id) := by
  induction depth generalizing checker id with
  | zero => exact absurd deep (Nat.not_lt_zero _)
  | succ depth ih =>
    have ⟨declared, found⟩ := isDeclared
    refine .step (run_feature checker found) (.bind (.mapM (fun _ _ => .onTypes _) _) ?_)
    intro args after run
    have spared := Ensures.of_spares (.mapM (fun _ => .onTypes _) _) args after run
    rw [← spared] at nested isDeclared
    refine .bind (finishes_outerTypeBy nested isDeclared fun outer below around =>
      ih nested around (by omega)) fun _ _ _ => .onTypes _

theorem finishes_selfType : Finishes checker (selfType id) :=
  finishes_selfTypeWithin nested isDeclared (Nat.lt_succ_self _)

theorem finishes_instantiate (args : List TypeId) : Finishes checker (instantiate id args) := by
  have ⟨declared, found⟩ := isDeclared
  refine .step (run_feature checker found) ?_
  refine .bind (finishes_outerTypeBy nested isDeclared ?_) ?_
  · exact fun outer _ around => finishes_selfType nested around
  · exact fun _ _ _ => .onTypes _

end

/-! ## Creating a companion -/

theorem finishes_declare {outer : FeatureId}
    (surrounded : ∃ around, checker.features.get outer = .ok around) (name : String) (isRef : Bool)
    (origin : Option FeatureId) :
    Finishes checker (onFeatures (·.declare name outer isRef origin)) := by
  obtain ⟨around, found⟩ := surrounded
  obtain ⟨qualifiedName, qualified⟩ :
      ∃ qualifiedName, checker.features.qualify outer name = .ok qualifiedName := by
    rw [FeatureTable.qualify, found]
    split <;> exact ⟨_, rfl⟩
  apply Finishes.onFeatures
  rw [FeatureTable.declare, qualified]
  rfl

theorem finishes_addFormal {id : FeatureId} {declared : Feature}
    (found : checker.features.get id = .ok declared) (closed : declared.endsOpen = false)
    (name : String) (constraint : TypeId) (isOpen : Bool) (span : Span) :
    Finishes checker (addFormal id name constraint isOpen span) := by
  apply Finishes.onFeatures
  rw [FeatureTable.addFormal, found]
  change (if declared.endsOpen = true then _ else _) = _
  rw [closed, if_neg Bool.false_ne_true, FeatureTable.modify, found]
  rfl

def Copyable (types : TypeStore) (origin : FeatureId) (formals : List Formal) : Prop :=
  ∀ formal ∈ formals, types.Holds formal.constraint ∧
    (types.tree formal.constraint).Shiftable origin 1

theorem Copyable.of_extends {types types' : TypeStore} {origin : FeatureId} {formals : List Formal}
    (copyable : Copyable types origin formals) (coherent : types.Coherent)
    (coherent' : types'.Coherent) (extension : types.Extends types') :
    Copyable types' origin formals := by
  intro formal member
  obtain ⟨held, shiftable⟩ := copyable formal member
  refine ⟨extension.holds held, ?_⟩
  rwa [TypeStore.tree_eq_of_extends coherent coherent' extension held]

section

variable (canonical : checker.types.Canonical) {origin : FeatureId} {formals : List Formal}
  (copyable : Copyable checker.types origin formals)
  (lastOpen : formals.Pairwise fun earlier _ => earlier.isOpen = false)

include canonical copyable lastOpen

theorem finishes_copyEach {mirror : Feature} (found : checker.features.get companion = .ok mirror)
    (numbered : mirror.Numbered companion) (closed : formals ≠ [] → mirror.endsOpen = false) :
    Finishes checker (formals.forM fun formal => do
      let constraint ← shiftFormals origin companion 1 formal.constraint
      let _ ← addFormal companion formal.name constraint formal.isOpen formal.span) := by
  induction formals generalizing checker mirror with
  | nil => exact .pure ()
  | cons formal rest ih =>
    obtain ⟨held, shiftable⟩ := copyable formal List.mem_cons_self
    rw [List.forM_eq_forM, List.forM_cons, bind_assoc]
    obtain ⟨types, extension, canonical₁, ⟨_, constraint, run₁, _⟩ | ⟨unshiftable, _⟩⟩ :=
      shifts_shiftFormals canonical origin companion 1 ⟨held, rfl⟩
    case inr => exact absurd shiftable unshiftable
    refine .step run₁ ?_
    have found : ({ checker with types } : Checker).features.get companion = .ok mirror := found
    rw [bind_assoc]
    refine .bind (finishes_addFormal found (closed (List.cons_ne_nil _ _)) ..) ?_
    intro id after₂ run₂
    obtain ⟨typesEq, copy, _, _, openEq, _, numbered₂, update⟩ := ensures_addFormal found
      numbered formal.name constraint formal.isOpen formal.span id after₂ run₂
    rw [pure_bind]
    refine ih ?_ ?_ lastOpen.tail update.get_self numbered₂ ?_
    · rw [typesEq]
      exact canonical₁
    · rw [typesEq]
      exact Copyable.of_extends (fun formal member => copyable formal (.tail _ member))
        canonical.toCoherent canonical₁.toCoherent extension
    · intro more
      rw [Feature.endsOpen, List.getLast?_concat, Option.any_some, openEq]
      obtain ⟨next, member⟩ := List.exists_mem_of_ne_nil rest more
      exact List.rel_of_pairwise_cons lastOpen member

theorem finishes_copyFormals (nested : checker.features.Nested)
    (isDeclared : ∃ declared, checker.features.get origin = .ok declared) {new : Feature}
    (found : checker.features.get companion = .ok new) (bare : new.formals = []) :
    Finishes checker (copyFormals origin companion formals) := by
  have numbered : new.Numbered companion := by
    intro position formal present
    rw [bare] at present
    cases present
  refine .bind (finishes_selfType nested isDeclared) ?_
  intro self after₁ run₁
  have built := Builds.selfTypeWithin canonical (origin.index + 1) origin checker rfl
  rw [← selfType, run₁] at built
  obtain ⟨extension, canonical₁, _⟩ := built
  have spared := Ensures.of_spares (.selfTypeWithin _ origin) self after₁ run₁
  rw [← spared] at found
  have bareEnds : new.endsOpen = false := by
    rw [Feature.endsOpen, bare]
    rfl
  refine .bind (finishes_addFormal found bareEnds ..) ?_
  intro id after₂ run₂
  obtain ⟨typesEq, this, _, _, notOpen, _, numbered₂, update⟩ :=
    ensures_addFormal found numbered thisFormalName self false {} id after₂ run₂
  rw [← typesEq] at canonical₁ extension
  refine finishes_copyEach canonical₁
    (copyable.of_extends canonical.toCoherent canonical₁.toCoherent extension) lastOpen
    update.get_self numbered₂ ?_
  intro _
  rw [Feature.endsOpen, List.getLast?_concat, Option.any_some, notOpen]

end

theorem finishes_inheritTypeRoot (nested : checker.features.Nested)
    (rooted : ∀ root, checker.features.typeRoot = some root →
      ∃ declared, checker.features.get root = .ok declared) {mirror : Feature}
    (found : checker.features.get companion = .ok mirror) :
    Finishes checker (inheritTypeRoot companion) := by
  refine .step (rfl : typeRoot?.run checker = .ok checker.features.typeRoot checker) ?_
  cases isRoot : checker.features.typeRoot with
  | none => exact .pure ()
  | some root =>
    refine .bind (finishes_instantiate nested (rooted root isRoot) []) ?_
    intro ty after run
    have spared := Ensures.of_spares (.instantiate root []) ty after run
    rw [← spared] at found
    exact .modifyFeature found _

/-- A companion is created if the constraints of its origin can be shifted. -/
theorem finishes_createCompanion (lawful : checker.features.Lawful)
    (canonical : checker.types.Canonical)
    (rooted : ∀ root, checker.features.typeRoot = some root →
      ∃ declared, checker.features.get root = .ok declared) {origin around : FeatureId}
    {declared : Feature} (found : checker.features.get origin = .ok declared)
    (copyable : Copyable checker.types origin declared.formals)
    (surrounded : ∃ outer, checker.features.get around = .ok outer) :
    Finishes checker (createCompanion origin around) := by
  refine .step (run_feature checker found) ?_
  refine .bind (finishes_declare surrounded ..) ?_
  intro companion after₁ run₁
  obtain ⟨rfl, qualifiedName, _, names, update₁⟩ :=
    lawful.nested.declare_names (Ensures.onFeatures _ companion after₁ run₁)
  have typesEq := ensures_sameTypes _ _ after₁ run₁
  rw [← typesEq] at canonical copyable
  have isOld : ∀ {id : FeatureId} {declared : Feature}, checker.features.get id = .ok declared →
      id ≠ ⟨checker.features.size⟩ := by
    rintro _ declared found rfl
    exact Nat.lt_irrefl _ (FeatureTable.index_lt_size found)
  refine .bind (finishes_copyFormals canonical copyable
    (lawful.numbered origin declared found).pairwise
    (lawful.nested.extended update₁.extended ⟨around, rfl, surrounded, names⟩)
    ⟨declared, (update₁.get_other origin (isOld found)).trans found⟩ update₁.get_self rfl) ?_
  intro _ after₂ run₂
  obtain ⟨this, copies, _, _, _, _, _, update₂, _⟩ :=
    ensures_copyFormals origin _ declared.formals update₁.get_self rfl _ after₂ run₂
  have update := update₁.trans update₂
  refine .bind (finishes_inheritTypeRoot (lawful.nested.extended update.extended
    ⟨around, rfl, surrounded, names⟩) ?_
    update.get_self) ?_
  · intro root isRoot
    rw [update.typeRoot_eq] at isRoot
    obtain ⟨rootDeclared, rootFound⟩ := rooted root isRoot
    exact ⟨rootDeclared, (update.get_other root (isOld rootFound)).trans rootFound⟩
  intro _ after₃ run₃
  obtain ⟨_, update₃, _⟩ := ensures_inheritTypeRoot update.get_self rfl _ after₃ run₃
  have foundLast := ((update.trans update₃).get_other origin (isOld found)).trans found
  refine .bind (.modifyFeature foundLast _) fun _ _ _ => ?_
  exact .bind (.record _) fun _ _ _ => .pure _

/-! ## Asking for a companion -/

/-- The later checker has grown, and is lawful and well-formed. -/
structure GrowsLawfully (start later : Checker) : Prop where
  grows : start.Grows later
  wellFormed : later.WellFormed
  lawful : later.features.Lawful

/-- Whatever is created on the way, the table stays lawful. -/
theorem GrowsLawfully.ensures_companionWithin {start : Checker}
    (growing : start.GrowsLawfully checker) (depth : Nat) (id : FeatureId) :
    Ensures checker (companionWithin depth id) fun after _ =>
      start.GrowsLawfully after ∧ checker.Grows after := by
  intro companion after run
  obtain ⟨wellFormed, growth⟩ :=
    growing.wellFormed.ensures_companionWithin depth id companion after run
  exact ⟨⟨growing.grows.trans growth, wellFormed,
    (Checker.ensures_companionWithin growing.lawful depth id companion after run).lawful⟩, growth⟩

theorem GrowsLawfully.ensures_companionOuterBy {start : Checker}
    (growing : start.GrowsLawfully checker) (depth : Nat) (outer : FeatureId) :
    Ensures checker (companionOuterBy (companionWithin depth) outer) fun after around =>
      start.GrowsLawfully after ∧ after.features.Surrounds outer around := by
  have surrounds := Checker.ensures_companionOuterBy growing.lawful
    (fun id => Checker.ensures_companionWithin growing.lawful depth id) outer
  have onward : Ensures checker (companionOuterBy (companionWithin depth) outer) fun after _ =>
      start.GrowsLawfully after := by
    refine .bind (.feature outer) ?_
    rintro _ declared ⟨rfl, _⟩
    split
    · exact .pure growing
    · refine .bind (growing.ensures_companionWithin depth outer) ?_
      rintro after companion ⟨growing', _⟩
      exact .pure growing'
  exact fun around after run =>
    ⟨onward around after run, (surrounds around after run).1⟩

/-- What companions are made of is there: the type root is declared, and constraints can be
shifted. -/
structure Prepared (start : Checker) : Prop where
  wellFormed : start.WellFormed
  lawful : start.features.Lawful
  root_declared : ∀ root, start.features.typeRoot = some root →
    ∃ declared, start.features.get root = .ok declared
  constraint_shiftable : ∀ id declared, start.features.get id = .ok declared →
    declared.isCompanion = false → ∀ formal ∈ declared.formals,
      (start.types.tree formal.constraint).Shiftable id 1

namespace Prepared

variable {start : Checker} (prepared : start.Prepared)

include prepared

theorem copyable (growing : start.GrowsLawfully checker) {id : FeatureId} {declared : Feature}
    (found : start.features.get id = .ok declared) (plain : declared.isCompanion = false) :
    Copyable checker.types id declared.formals := by
  have coherent := prepared.wellFormed.types_canonical.toCoherent
  have stored : Copyable start.types id declared.formals := fun formal member =>
    ⟨(prepared.wellFormed.features_wellFormed id declared found).constraint_held formal member,
      prepared.constraint_shiftable id declared found plain formal member⟩
  exact stored.of_extends coherent growing.wellFormed.types_canonical.toCoherent
    growing.grows.types_extend

omit prepared in
theorem finishes_companionOuterBy (growing : start.GrowsLawfully checker)
    {companionOf : FeatureId → CheckM (Option FeatureId)} {outer : FeatureId}
    (isDeclared : ∃ declared, start.features.get outer = .ok declared)
    (each : Finishes checker (companionOf outer)) :
    Finishes checker (companionOuterBy companionOf outer) := by
  obtain ⟨declared, found⟩ := isDeclared
  obtain ⟨companion, foundLater⟩ := growing.grows.features_grow.get_eq outer declared found
  refine .step (run_feature checker foundLater) ?_
  split
  · exact .pure _
  · exact .bind each fun _ _ _ => .pure _

theorem finishes_companionWithin (growing : start.GrowsLawfully checker)
    {id : FeatureId} (isDeclared : ∃ declared, start.features.get id = .ok declared) {depth : Nat}
    (deep : id.index < depth) : Finishes checker (companionWithin depth id) := by
  induction depth generalizing checker id with
  | zero => exact absurd deep (Nat.not_lt_zero _)
  | succ depth ih =>
    obtain ⟨declared, found⟩ := isDeclared
    obtain ⟨companion, foundLater⟩ := growing.grows.features_grow.get_eq id declared found
    refine .step (run_feature checker foundLater) ?_
    cases companion with
    | some companion => exact .pure (some companion)
    | none =>
      cases isOuter : declared.outer with
      | none => exact .pure none
      | some outer =>
        obtain ⟨below, outerDeclared, _⟩ :=
          prepared.lawful.nested.inside id declared outer found isOuter
        dsimp only
        split
        · exact .pure none
        next plain =>
          refine .bind (finishes_companionOuterBy growing outerDeclared
            (ih growing outerDeclared (by omega))) ?_
          intro around after run
          obtain ⟨growing', surrounds⟩ :=
            growing.ensures_companionOuterBy depth outer around after run
          have growth := growing'.grows.features_grow
          obtain ⟨companion, foundAfter⟩ := growth.get_eq id declared found
          have copyable : Copyable after.types id declared.formals :=
            prepared.copyable growing' found (Bool.eq_false_iff.mpr plain)
          refine .bind (finishes_createCompanion growing'.lawful
            growing'.wellFormed.types_canonical ?_ foundAfter copyable
            (surrounds.declared growing'.lawful)) fun _ _ _ => .pure _
          intro root isRoot
          rw [growth.typeRoot_eq] at isRoot
          obtain ⟨rootDeclared, rootFound⟩ := prepared.root_declared root isRoot
          obtain ⟨_, rootFoundAfter⟩ := growth.get_eq root rootDeclared rootFound
          exact ⟨_, rootFoundAfter⟩

/-- Asking for the companion of a declared feature comes to a result. -/
theorem finishes_companion? (growing : start.GrowsLawfully checker) {id : FeatureId}
    (isDeclared : ∃ declared, start.features.get id = .ok declared) :
    Finishes checker (companion? id) :=
  prepared.finishes_companionWithin growing isDeclared (Nat.lt_succ_self _)

end Prepared

end Checker

end FeatureTypes

import FeatureTypes.Proofs.Meaning.Formals
import FeatureTypes.Proofs.Store.Construction

/-!
# Missing companions

Asking for a companion creates just what is missing: one companion for each feature on the
way outwards, up to the first that has one, is one or is the universe.
-/

namespace FeatureTypes

variable {mirror declared : Feature}

/-! ## Mirrored formals -/

def Formal.Copies (formal copy : Formal) : Prop :=
  copy.name = formal.name ∧ copy.isOpen = formal.isOpen ∧ copy.span = formal.span

/-- The formals of `mirror` are one for the type at hand and copies of those of
`declared`. -/
def Feature.Mirrors (declared mirror : Feature) : Prop :=
  ∃ this copies, mirror.formals = this :: copies ∧ this.isOpen = false ∧
    List.Forall₂ Formal.Copies declared.formals copies

/-- The constraint of the copy is that of the formal, with the formals of `id` turned into those
of `companion`, one position further on. -/
def Formal.Shifted (before types : TypeStore) (id companion : FeatureId) (formal copy : Formal) :
    Prop :=
  types.Denotes copy.constraint ((before.tree formal.constraint).shift id companion 1)

theorem Formal.Shifted.holds {before types : TypeStore} {id companion : FeatureId}
    {formals copies : List Formal}
    (shifted : List.Forall₂ (Shifted before types id companion) formals copies) :
    ∀ copy ∈ copies, types.Holds copy.constraint := by
  induction shifted with
  | nil => exact List.forall_mem_nil _
  | cons first _ ih => exact List.forall_mem_cons.mpr ⟨first.1, ih⟩

theorem Feature.WellFormed.of_numbered {types : TypeStore} {id : FeatureId}
    (numbered : mirror.Numbered id) (orphan : mirror.parents = []) (plain : mirror.summands = none)
    (held : ∀ formal ∈ mirror.formals, types.Holds formal.constraint) :
    mirror.WellFormed types id where
  formal_id position formal present := (numbered position formal present).1
  constraint_held := held
  actuals_held parent member := by simp [orphan] at member
  ty_held parent member := by simp [orphan] at member
  summands_held summands isChoice := by simp [plain] at isChoice

/-- The companion of a feature of `start` as it is created: its formals follow the one for the
type at hand, and it inherits from the type root, without actuals, if there is one. -/
structure Feature.Reflects (start : Checker) (types : TypeStore) (id companion : FeatureId)
    (declared mirror : Feature) : Prop where
  name_eq : mirror.name = declared.name ++ ".type"
  isRef_eq : mirror.isRef = false
  origin_eq : mirror.origin = some id
  companion_eq : mirror.companion = none
  summands_eq : mirror.summands = none
  inherits : ∃ ty, mirror.parents = start.features.typeRoot.toList.map (⟨·, [], ty⟩) ∧
    ∀ root declaredRoot, start.features.typeRoot = some root →
      start.features.get root = .ok declaredRoot →
        ∃ tree, start.signature.instantiate root [] = some tree ∧ types.Denotes ty tree
  numbered : mirror.Numbered companion
  formals : ∃ this copies, mirror.formals = this :: copies ∧
    this.name = Checker.thisFormalName ∧ this.isOpen = false ∧ this.span = {} ∧
    (∃ self, start.signature.selfType id = some self ∧ types.Denotes this.constraint self) ∧
    List.Forall₂ Formal.Copies declared.formals copies ∧
    List.Forall₂ (Formal.Shifted start.types types id companion) declared.formals copies

theorem Feature.Reflects.of_extends {start : Checker} {types types' : TypeStore}
    {id companion : FeatureId} (reflects : declared.Reflects start types id companion mirror)
    (coherent : types.Coherent) (coherent' : types'.Coherent) (extension : types.Extends types') :
    declared.Reflects start types' id companion mirror := by
  obtain ⟨this, copies, formalsEq, nameEq, notOpen, spanEq, ⟨self, selfEq, denotes⟩, copied,
    shifted⟩ := reflects.formals
  obtain ⟨ty, parentsEq, tyDenotes⟩ := reflects.inherits
  exact { reflects with
    inherits := ⟨ty, parentsEq, fun root declaredRoot isRoot found =>
      (tyDenotes root declaredRoot isRoot found).imp fun _ ⟨treeEq, denotes⟩ =>
        ⟨treeEq, denotes.of_extends coherent coherent' extension⟩⟩
    formals := ⟨this, copies, formalsEq, nameEq, notOpen, spanEq,
      ⟨self, selfEq, denotes.of_extends coherent coherent' extension⟩, copied,
      shifted.imp fun _ _ each => each.of_extends coherent coherent' extension⟩ }

namespace Checker

variable {start checker : Checker}

/-! ## Creating a companion -/

theorem ensures_sameTypes {α : Type}
    (operation : FeatureTable → Except Failure (α × FeatureTable)) :
    Ensures checker (onFeatures operation) fun after _ => after.types = checker.types := by
  intro result after run
  rw [run_onFeatures] at run
  split at run
  · obtain ⟨_, rfl⟩ := EStateM.Result.ok.inj run
    rfl
  · cases run

theorem ensures_record (event : Event) :
    Ensures checker (record event) fun after _ =>
      after.types = checker.types ∧ after.features = checker.features := by
  intro result after run
  rw [run_record] at run
  cases run
  constructor <;> split <;> rfl

theorem ensures_shiftFormals (origin companion : FeatureId) (offset : Nat) (ty : TypeId) :
    Ensures checker (shiftFormals origin companion offset ty) fun after result =>
      after.features = checker.features ∧ (checker.types.Canonical → checker.types.Holds ty →
        after.types.Canonical ∧ checker.types.Extends after.types ∧
          after.types.Denotes result ((checker.types.tree ty).shift origin companion offset)) := by
  intro result after run
  refine ⟨Ensures.of_spares (.shiftFormals origin companion offset ty) result after run, ?_⟩
  intro canonical held
  obtain ⟨types, extension, canonical', ⟨_, _, run', denotes⟩ | ⟨_, run'⟩⟩ :=
    shifts_shiftFormals canonical origin companion offset ⟨held, rfl⟩
  · obtain ⟨rfl, rfl⟩ := EStateM.Result.ok.inj (run'.symm.trans run)
    exact ⟨canonical', extension, denotes⟩
  · cases run'.symm.trans run

theorem ensures_addFormal {id : FeatureId} (found : checker.features.get id = .ok declared)
    (numbered : declared.Numbered id) (name : String) (constraint : TypeId) (isOpen : Bool)
    (span : Span) :
    Ensures checker (addFormal id name constraint isOpen span) fun after _ =>
      after.types = checker.types ∧ ∃ formal, formal.name = name ∧
        formal.constraint = constraint ∧ formal.isOpen = isOpen ∧ formal.span = span ∧
        Feature.Numbered id { declared with formals := declared.formals ++ [formal] } ∧
          checker.features.Update after.features id
            { declared with formals := declared.formals ++ [formal] } := by
  intro formalId after run
  have added := Ensures.addFormal id name constraint isOpen span formalId after run
  rcases FeatureTable.addFormal_update added with ⟨declared', found', idEq, update⟩
  obtain rfl := Except.ok.inj (found.symm.trans found')
  exact ⟨ensures_sameTypes _ formalId after run, _, rfl, rfl, rfl, rfl,
    numbered.withFormal (FeatureTable.addFormal_closed added found) idEq, update⟩

theorem ensures_copyEach (origin companion : FeatureId) (formals : List Formal)
    (found : checker.features.get companion = .ok mirror) (numbered : mirror.Numbered companion) :
    Ensures checker
      (formals.forM fun formal => do
        let constraint ← shiftFormals origin companion 1 formal.constraint
        let _ ← addFormal companion formal.name constraint formal.isOpen formal.span)
      fun after _ => ∃ copies, List.Forall₂ Formal.Copies formals copies ∧
        Feature.Numbered companion { mirror with formals := mirror.formals ++ copies } ∧
        checker.features.Update after.features companion
          { mirror with formals := mirror.formals ++ copies } ∧
        ∀ before : TypeStore, before.Coherent → before.Extends checker.types →
          (∀ formal ∈ formals, before.Holds formal.constraint) → checker.types.Canonical →
            after.types.Canonical ∧ checker.types.Extends after.types ∧
              List.Forall₂ (Formal.Shifted before after.types origin companion) formals copies := by
  induction formals generalizing checker mirror with
  | nil =>
    apply Ensures.pure
    refine ⟨[], .nil, ?_⟩
    rw [List.append_nil]
    exact ⟨numbered, .refl found, fun _ _ _ _ canonical => ⟨canonical, .refl _, .nil⟩⟩
  | cons formal rest ih =>
    rw [List.forM_eq_forM, List.forM_cons, bind_assoc]
    refine .bind (ensures_shiftFormals origin companion 1 formal.constraint) ?_
    rintro after₁ constraint ⟨spared, shifts⟩
    rw [← spared] at found ⊢
    rw [bind_assoc]
    refine .bind
      (ensures_addFormal found numbered formal.name constraint formal.isOpen formal.span) ?_
    rintro after₂ _ ⟨typesEq, copy, nameEq, rfl, openEq, spanEq, numbered₂, update⟩
    rw [pure_bind]
    refine .weaken (ih update.get_self numbered₂) ?_
    rintro after₃ _ ⟨copies, copied, numbered₃, update₃, shifted⟩
    rw [List.append_assoc, List.singleton_append] at numbered₃ update₃
    refine ⟨copy :: copies, .cons ⟨nameEq, openEq, spanEq⟩ copied, numbered₃,
      update.trans update₃, fun before coherent extension held canonical => ?_⟩
    rw [List.forall_mem_cons] at held
    obtain ⟨canonical₁, extension₁, denotes⟩ := shifts canonical (extension.holds held.1)
    rw [TypeStore.tree_eq_of_extends coherent canonical.toCoherent extension held.1] at denotes
    rw [← typesEq] at canonical₁ extension₁ denotes
    obtain ⟨canonical₃, extension₃, shiftedRest⟩ :=
      shifted before coherent (extension.trans extension₁) held.2 canonical₁
    exact ⟨canonical₃, extension₁.trans extension₃, .cons
      (denotes.of_extends canonical₁.toCoherent canonical₃.toCoherent extension₃) shiftedRest⟩

section

variable (lawful : start.features.Lawful) {signature : Signature}
  (follows : start.Follows signature) {id : FeatureId}
  (found : start.features.get id = .ok declared)

include lawful follows found

theorem outerTypeBy_eq {typeOf typeOf' : FeatureId → Option Ty}
    (same : ∀ outer around, start.features.get outer = .ok around → typeOf outer = typeOf' outer) :
    signature.outerTypeBy typeOf id = start.signature.outerTypeBy typeOf' id := by
  rw [Signature.outerTypeBy, Signature.outerTypeBy, follows.feature_eq id declared found,
    start.follows_signature.feature_eq id declared found]
  simp only [Feature.outline, Option.bind_eq_bind, Option.bind_some]
  cases isOuter : declared.outer with
  | none => rfl
  | some outer =>
    obtain ⟨around, foundAround⟩ :=
      lawful.outer_declared ((FeatureTable.outerOf_eq found).trans isOuter)
    dsimp only
    rw [follows.feature_eq outer around foundAround,
      start.follows_signature.feature_eq outer around foundAround, same outer around foundAround]

/-- The type that a feature has from inside is the same in every checker that has grown. -/
theorem selfTypeWithin_eq (depth : Nat) :
    signature.selfTypeWithin depth id = start.signature.selfTypeWithin depth id := by
  induction depth generalizing id declared with
  | zero => rfl
  | succ depth ih =>
    rw [Signature.selfTypeWithin, Signature.selfTypeWithin,
      outerTypeBy_eq lawful follows found fun _ _ => ih,
      follows.feature_eq id declared found, start.follows_signature.feature_eq id declared found]

theorem instantiate_eq (args : List Ty) :
    signature.instantiate id args = start.signature.instantiate id args := by
  have outerEq : signature.outerTypeBy signature.selfType id =
      start.signature.outerTypeBy start.signature.selfType id :=
    outerTypeBy_eq lawful follows found fun _ _ foundOuter =>
      selfTypeWithin_eq lawful follows foundOuter _
  rw [Signature.instantiate, Signature.instantiate, outerEq,
    follows.feature_eq id declared found, start.follows_signature.feature_eq id declared found]

end

/-- The features of `start`, which is lawful, are still there. -/
structure Outgrows (start checker : Checker) : Prop where
  wellFormed : start.WellFormed
  lawful : start.features.Lawful
  types_extend : start.types.Extends checker.types
  features_grow : start.features.Grows checker.features
  wellFormed' : checker.WellFormed

namespace Outgrows

variable (outgrows : start.Outgrows checker)

include outgrows

theorem canonical : checker.types.Canonical := outgrows.wellFormed'.types_canonical

theorem follows : start.Follows checker.signature :=
  checker.follows_signature.of_grows outgrows.wellFormed outgrows.canonical.toCoherent
    outgrows.types_extend outgrows.features_grow

/-- A feature that is not one of `start` may change. -/
theorem update {id : FeatureId} {after : Checker} {new : Feature}
    (update : checker.features.Update after.features id new)
    (isNew : start.features.size ≤ id.index) (canonical : after.types.Canonical)
    (extension : checker.types.Extends after.types)
    (newWellFormed : new.WellFormed after.types id) : start.Outgrows after := by
  have growth := outgrows.features_grow
  refine ⟨outgrows.wellFormed, outgrows.lawful, outgrows.types_extend.trans extension,
    ⟨update.typeRoot_eq.trans growth.typeRoot_eq, ?_⟩, canonical,
    (outgrows.wellFormed'.features_wellFormed.of_extends extension).update update newWellFormed⟩
  intro other before found
  have isOther : other ≠ id := by
    rintro rfl
    exact absurd (FeatureTable.index_lt_size found) (Nat.not_lt.mpr isNew)
  rw [update.get_other other isOther]
  exact growth.get_eq other before found

theorem of_selfType {id : FeatureId} (found : start.features.get id = .ok declared) {self : TypeId}
    {after : Checker} (run : (selfType id).run checker = .ok self after) :
    (∃ tree, start.signature.selfType id = some tree ∧ after.types.Denotes self tree) ∧
      after.types.Canonical ∧ checker.types.Extends after.types := by
  obtain ⟨tree, treeEq, denotes, extension, _, wellFormed⟩ :=
    (rewrites_selfType checker id).exists_of_run outgrows.wellFormed' checker.follows_signature
      (.error outgrows.canonical) run
  rw [Signature.selfType, selfTypeWithin_eq outgrows.lawful outgrows.follows found] at treeEq
  exact ⟨⟨tree, treeEq, denotes⟩, wellFormed.types_canonical, extension⟩

/-- Only where `id` is one of `start` does `start` tell what the type is. -/
theorem of_instantiate {id : FeatureId} {ty : TypeId} {after : Checker}
    (run : (instantiate id []).run checker = .ok ty after) :
    after.types.Canonical ∧ checker.types.Extends after.types ∧
      ∀ declared, start.features.get id = .ok declared →
        ∃ tree, start.signature.instantiate id [] = some tree ∧ after.types.Denotes ty tree := by
  obtain ⟨tree, treeEq, denotes, extension, _, wellFormed⟩ :=
    (rewrites_instantiate checker id).exists_of_run outgrows.wellFormed' checker.follows_signature
      (.error outgrows.canonical) run
  refine ⟨wellFormed.types_canonical, extension, fun declared found => ⟨tree, ?_, denotes⟩⟩
  rw [← instantiate_eq outgrows.lawful outgrows.follows found, treeEq]

end Outgrows

theorem ensures_copyFormals (origin companion : FeatureId) (formals : List Formal) {new : Feature}
    (found : checker.features.get companion = .ok new) (bare : new.formals = []) :
    Ensures checker (copyFormals origin companion formals) fun after _ =>
      ∃ this copies, this.name = thisFormalName ∧ this.isOpen = false ∧ this.span = {} ∧
        List.Forall₂ Formal.Copies formals copies ∧
        Feature.Numbered companion { new with formals := this :: copies } ∧
        checker.features.Update after.features companion { new with formals := this :: copies } ∧
        ∀ start : Checker, start.Outgrows checker → ∀ declared,
          start.features.get origin = .ok declared → declared.formals = formals →
            after.types.Canonical ∧ checker.types.Extends after.types ∧
            (∃ self, start.signature.selfType origin = some self ∧
              after.types.Denotes this.constraint self) ∧
            List.Forall₂ (Formal.Shifted start.types after.types origin companion) formals
              copies := by
  have numbered : new.Numbered companion := by
    intro position formal present
    rw [bare] at present
    cases present
  have selfRuns : Ensures checker (selfType origin) fun after self =>
      after.features = checker.features ∧ (selfType origin).run checker = .ok self after :=
    fun self after run => ⟨Ensures.of_spares (.selfTypeWithin _ origin) self after run, run⟩
  refine .bind selfRuns ?_
  rintro after₁ self ⟨spared, run⟩
  rw [← spared] at found ⊢
  refine .bind (ensures_addFormal found numbered thisFormalName self false {}) ?_
  rintro after₂ _ ⟨typesEq, this, nameEq, rfl, notOpen, spanEq, numbered₂, update⟩
  refine .weaken (ensures_copyEach origin companion formals update.get_self numbered₂) ?_
  rintro after₃ _ ⟨copies, copied, numbered₃, update₃, shifted⟩
  simp only [bare, List.nil_append, List.singleton_append] at numbered₃ update₃
  refine ⟨this, copies, nameEq, notOpen, spanEq, copied, numbered₃, update.trans update₃, ?_⟩
  rintro start outgrows declared foundStart rfl
  obtain ⟨⟨tree, treeEq, denotes⟩, canonical₁, extension₁⟩ := outgrows.of_selfType foundStart run
  rw [← typesEq] at denotes canonical₁ extension₁
  obtain ⟨canonical₃, extension₃, shiftedAll⟩ := shifted start.types
    outgrows.wellFormed.types_canonical.toCoherent (outgrows.types_extend.trans extension₁)
    (outgrows.wellFormed.features_wellFormed origin declared foundStart).constraint_held canonical₁
  exact ⟨canonical₃, extension₁.trans extension₃, ⟨tree, treeEq,
    denotes.of_extends canonical₁.toCoherent canonical₃.toCoherent extension₃⟩, shiftedAll⟩

theorem ensures_inheritTypeRoot {companion : FeatureId}
    (found : checker.features.get companion = .ok mirror) (orphan : mirror.parents = []) :
    Ensures checker (inheritTypeRoot companion) fun after _ =>
      ∃ ty, checker.features.Update after.features companion
        { mirror with parents := checker.features.typeRoot.toList.map (⟨·, [], ty⟩) } ∧
      ∀ start : Checker, start.Outgrows checker →
        after.types.Canonical ∧ checker.types.Extends after.types ∧
          ∀ root declaredRoot, checker.features.typeRoot = some root →
            start.features.get root = .ok declaredRoot →
              ∃ tree, start.signature.instantiate root [] = some tree ∧
                after.types.Denotes ty tree := by
  refine .look (rfl : typeRoot?.run checker = .ok checker.features.typeRoot checker) ?_
  cases isRoot : checker.features.typeRoot with
  | none =>
    refine .pure ⟨.error, ?_, fun start outgrows => ⟨outgrows.canonical, .refl _, ?_⟩⟩
    · rw [Option.toList_none, List.map_nil, ← orphan]
      exact .refl found
    · intro root _ isRoot'
      cases isRoot'
  | some root =>
    have instantiates : Ensures checker (instantiate root []) fun after ty =>
        after.features = checker.features ∧ (instantiate root []).run checker = .ok ty after :=
      fun ty after run => ⟨Ensures.of_spares (.instantiate root []) ty after run, run⟩
    refine .bind instantiates ?_
    rintro after₁ ty ⟨spared, instantiated⟩
    intro result after₂ run
    have modified := Ensures.modifyFeature companion _ result after₂ run
    rw [spared] at modified
    rcases FeatureTable.modify_update modified with ⟨mirror', found', update⟩
    obtain rfl := Except.ok.inj (found.symm.trans found')
    rw [orphan] at update
    rw [ensures_sameTypes _ result after₂ run]
    refine ⟨ty, update, fun start outgrows => ?_⟩
    obtain ⟨canonical, extension, denotes⟩ := outgrows.of_instantiate instantiated
    refine ⟨canonical, extension, fun root' declaredRoot isRoot' foundRoot => ?_⟩
    obtain rfl := Option.some.inj isRoot'
    exact denotes declaredRoot foundRoot

theorem ensures_createCompanion (lawful : checker.features.Lawful) {origin outer around : FeatureId}
    (found : checker.features.get origin = .ok declared) (unlinked : declared.companion = none)
    (plain : declared.origin = none) (isOuter : declared.outer = some outer)
    (surrounds : checker.features.Surrounds outer around) :
    Ensures checker (createCompanion origin around) fun after companion =>
      companion = ⟨checker.features.size⟩ ∧ after.features.Lawful ∧
        after.features.typeRoot = checker.features.typeRoot ∧
        ∃ mirror, checker.features.Extended after.features (some origin) mirror ∧
          mirror.origin = some origin ∧ declared.Mirrors mirror ∧
          ∀ start : Checker, start.Outgrows checker → start.features.get origin = .ok declared →
            after.types.Canonical ∧ checker.types.Extends after.types ∧
              declared.Reflects start after.types origin companion mirror := by
  refine .bind (.feature origin) ?_
  rintro _ _ ⟨rfl, found'⟩
  obtain rfl := Except.ok.inj (found.symm.trans found')
  have isOld : ∀ {id : FeatureId} {before : Feature}, checker.features.get id = .ok before →
      id ≠ ⟨checker.features.size⟩ := by
    rintro _ _ foundOld rfl
    exact Nat.lt_irrefl _ (FeatureTable.index_lt_size foundOld)
  have declares : Ensures checker
      (onFeatures (·.declare (declared.name ++ ".type") around false (some origin)))
      fun after companion => after.types = checker.types ∧
        checker.features.declare (declared.name ++ ".type") around false (some origin) =
          .ok (companion, after.features) :=
    fun companion after run => ⟨ensures_sameTypes _ companion after run,
      Ensures.onFeatures _ companion after run⟩
  refine .bind declares ?_
  rintro after₁ companion ⟨typesEq₁, declaredNew⟩
  rcases lawful.nested.declare_names declaredNew with ⟨rfl, qualifiedName, outside, names, update₁⟩
  refine .bind (ensures_copyFormals origin _ declared.formals update₁.get_self rfl) ?_
  rintro after₂ _ ⟨this, copies, nameEq, notOpen, spanEq, copied, numbered, update₂, mirrored⟩
  refine .bind (ensures_inheritTypeRoot update₂.get_self rfl) ?_
  rintro after₃ _ ⟨ty, update₃, inherits⟩
  have update := (update₁.trans update₂).trans update₃
  have links : Ensures after₃ (modifyFeature origin fun feature =>
      { feature with companion := some ⟨checker.features.size⟩ }) fun after _ =>
        after.types = after₃.types ∧ after₃.features.modify origin (fun feature =>
          { feature with companion := some ⟨checker.features.size⟩ }) = .ok after.features :=
    fun result after run => ⟨ensures_sameTypes _ result after run,
      Ensures.modifyFeature origin _ result after run⟩
  refine .bind links ?_
  rintro after₄ _ ⟨typesEq₄, linked⟩
  rcases FeatureTable.modify_update linked with ⟨declared', found', link⟩
  rw [update.get_other origin (isOld found)] at found'
  obtain rfl := Except.ok.inj (found.symm.trans found')
  have extended := update.extended_linked found link
  refine .bind (ensures_record _) ?_
  rintro after₅ _ ⟨typesEq₅, featuresEq⟩
  apply Ensures.pure
  rw [typesEq₅, typesEq₄, featuresEq]
  refine ⟨rfl, lawful.extended extended ?_, link.typeRoot_eq.trans update.typeRoot_eq, _, extended,
    rfl, ⟨this, copies, rfl, notOpen, copied⟩, ?_⟩
  · refine ⟨⟨around, rfl, outside, names⟩, numbered, rfl, rfl, ?_⟩
    intro origin' isLinked
    obtain rfl := Option.some.inj isLinked
    rw [FeatureTable.companionOf_eq found, FeatureTable.originOf_eq found,
      FeatureTable.outerOf_eq found]
    exact ⟨unlinked, plain, outer, around, isOuter, rfl, surrounds⟩
  · intro start outgrows foundStart
    have isNew := outgrows.features_grow.size_le
    have outgrows₁ : start.Outgrows after₁ := outgrows.update update₁ isNew
      (typesEq₁ ▸ outgrows.canonical) (typesEq₁ ▸ .refl _) (.new ..)
    obtain ⟨canonical₂, extension₂, ⟨self, selfEq, selfDenotes⟩, shifted⟩ :=
      mirrored start outgrows₁ declared foundStart rfl
    have outgrows₂ : start.Outgrows after₂ := outgrows₁.update update₂ isNew canonical₂ extension₂
      (.of_numbered numbered rfl rfl
        (List.forall_mem_cons.mpr ⟨selfDenotes.1, Formal.Shifted.holds shifted⟩))
    obtain ⟨canonical₃, extension₃, tyDenotes⟩ := inherits start outgrows₂
    have rootEq := outgrows₂.features_grow.typeRoot_eq
    have coherent₂ := canonical₂.toCoherent
    have coherent₃ := canonical₃.toCoherent
    rw [typesEq₁] at extension₂
    refine ⟨canonical₃, extension₂.trans extension₃, rfl, rfl, rfl, rfl, rfl,
      ⟨ty, by rw [rootEq], rootEq ▸ tyDenotes⟩, numbered, this, copies, rfl, nameEq, notOpen,
      spanEq, ⟨self, selfEq, selfDenotes.of_extends coherent₂ coherent₃ extension₃⟩, copied,
      shifted.imp fun _ _ each => each.of_extends coherent₂ coherent₃ extension₃⟩

end Checker

/-! ## Missing companions -/

namespace FeatureTable

variable {table between after : FeatureTable} {id companion : FeatureId} {chain : List FeatureId}

/-- The features from `id` outwards, up to the first that has a companion, is one or is the
universe. -/
inductive Lacks (table : FeatureTable) : FeatureId → List FeatureId → Prop
  | nothing {id : FeatureId} {declared : Feature} (found : table.get id = .ok declared)
      (settled : declared.companion ≠ none ∨ declared.isCompanion = true ∨ declared.outer = none) :
      Lacks table id []
  | companion {id outer : FeatureId} {declared : Feature} {chain : List FeatureId}
      (found : table.get id = .ok declared) (unlinked : declared.companion = none)
      (plain : declared.isCompanion = false) (isOuter : declared.outer = some outer)
      (further : Lacks table outer chain) : Lacks table id (id :: chain)

theorem Lacks.index_le (lawful : table.Lawful) (lacks : table.Lacks id chain) :
    ∀ member ∈ chain, member.index ≤ id.index := by
  induction lacks with
  | nothing => simp
  | companion found _ _ isOuter _ ih =>
    have smaller := lawful.outer_lt _ _ ((outerOf_eq found).trans isOuter)
    intro member isMember
    rcases List.mem_cons.mp isMember with rfl | further
    · exact Nat.le_refl _
    · exact Nat.le_of_lt (Nat.lt_of_le_of_lt (ih member further) smaller)

/-- The later table has a companion for each feature of the chain, which is as it should be, and
nothing else has become of the features. -/
structure Equips (table after : FeatureTable) (chain : List FeatureId)
    (asIs : (id companion : FeatureId) → (declared mirror : Feature) → Prop) : Prop where
  typeRoot_eq : after.typeRoot = table.typeRoot
  size_eq : after.size = table.size + chain.length
  kept : ∀ id declared, table.get id = .ok declared → id ∉ chain → after.get id = .ok declared
  linked : ∀ id ∈ chain, ∃ declared companion mirror, table.get id = .ok declared ∧
    table.size ≤ companion.index ∧
    after.get id = .ok { declared with companion := some companion } ∧
    after.get companion = .ok mirror ∧ asIs id companion declared mirror
  created : ∀ companion mirror, after.get companion = .ok mirror → table.size ≤ companion.index →
    ∃ id ∈ chain, after.companionOf id = some companion

theorem Extended.size_eq {linked : Option FeatureId}
    (extended : table.Extended after linked mirror) : after.size = table.size + 1 := by
  have below : table.size < after.size := index_lt_size extended.get_new
  have above : after.get ⟨table.size + 1⟩ = .error .unknownFeature := by
    have missing : table.get ⟨table.size + 1⟩ = .error .unknownFeature := by simp [get, size]
    rw [extended.get_old _ (by simp), missing]
    rfl
  by_contra different
  have inside : table.size + 1 < after.size := by omega
  rw [get_eq_ok_iff.mpr (Array.getElem?_eq_getElem inside)] at above
  cases above

namespace Equips

variable {asIs asIs' : (id companion : FeatureId) → (declared mirror : Feature) → Prop}

theorem refl (table : FeatureTable) : table.Equips table [] asIs where
  typeRoot_eq := rfl
  size_eq := rfl
  kept _ _ found _ := found
  linked _ member := by cases member
  created companion mirror found new := absurd (index_lt_size found) (Nat.not_lt.mpr new)

variable (equips : table.Equips after chain asIs)

include equips

theorem mono (implies : ∀ id companion declared mirror, table.get id = .ok declared →
    asIs id companion declared mirror → asIs' id companion declared mirror) :
    table.Equips after chain asIs' where
  __ := equips
  linked id member := by
    obtain ⟨declared, companion, mirror, found, new, linked, created, reflects⟩ :=
      equips.linked id member
    exact ⟨declared, companion, mirror, found, new, linked, created,
      implies id companion declared mirror found reflects⟩

omit equips in
theorem extended (equips : table.Equips between chain asIs) (found : table.get id = .ok declared)
    (isNew : id ∉ chain) (extended : between.Extended after (some id) mirror)
    (typeRootEq : after.typeRoot = between.typeRoot)
    (reflects : asIs id ⟨between.size⟩ declared mirror) :
    table.Equips after (id :: chain) asIs := by
  have isOld : ∀ {other : FeatureId} {before : Feature}, between.get other = .ok before →
      other ≠ ⟨between.size⟩ := by
    rintro _ _ otherFound rfl
    exact Nat.lt_irrefl _ (index_lt_size otherFound)
  have unlinked : ∀ {other : FeatureId} {before : Feature}, between.get other = .ok before →
      other ≠ id → after.get other = .ok before := by
    intro other before otherFound different
    rw [extended.get_old other (isOld otherFound), otherFound, Except.map,
      if_neg fun same => different (Option.some.inj same).symm]
  have linkedAfter : after.get id = .ok { declared with companion := some ⟨between.size⟩ } := by
    have foundBetween := equips.kept id declared found isNew
    rw [extended.get_old id (isOld foundBetween), foundBetween, Except.map, if_pos rfl]
  refine ⟨typeRootEq.trans equips.typeRoot_eq, ?_, ?_, ?_, ?_⟩
  · rw [extended.size_eq, equips.size_eq, List.length_cons, Nat.add_assoc]
  · intro other before otherFound notMember
    rw [List.mem_cons, not_or] at notMember
    exact unlinked (equips.kept other before otherFound notMember.2) notMember.1
  · intro member isMember
    rcases List.mem_cons.mp isMember with rfl | inChain
    · exact ⟨declared, ⟨between.size⟩, mirror, found, equips.size_eq ▸ Nat.le_add_right _ _,
        linkedAfter, extended.get_new, reflects⟩
    · obtain ⟨origin, companion, mirror', originFound, new, originBetween, mirrorBetween,
        reflects'⟩ := equips.linked member inChain
      have different : companion ≠ id := by
        rintro rfl
        exact Nat.lt_irrefl _ (Nat.lt_of_lt_of_le (index_lt_size found) new)
      refine ⟨origin, companion, mirror', originFound, new, unlinked originBetween ?_,
        unlinked mirrorBetween different, reflects'⟩
      rintro rfl
      exact isNew inChain
  · intro companion mirror' mirrorFound new
    rcases extended.get_cases mirrorFound with ⟨rfl, _⟩ | ⟨isOldCompanion, _, foundBetween, _⟩
    · exact ⟨id, List.mem_cons_self, companionOf_eq linkedAfter⟩
    · obtain ⟨member, inChain, link⟩ := equips.created companion _ foundBetween new
      obtain ⟨_, memberFound, _⟩ := exists_of_companionOf link
      refine ⟨member, List.mem_cons_of_mem _ inChain, ?_⟩
      rw [extended.companionOf_old (isOld memberFound), link]
      rintro same
      exact isNew (Option.some.inj same ▸ inChain)

end Equips

end FeatureTable

namespace Checker

variable {start checker : Checker}

/-! ## Asking for a companion -/

def MirrorsNew (before after : FeatureTable) : Prop :=
  ∀ id companion, before.companionOf id = none → after.companionOf id = some companion →
    ∃ declared mirror, after.get id = .ok declared ∧ after.get companion = .ok mirror ∧
      declared.Mirrors mirror

/-- What holds once the companion of `id` has been asked for: it is there, together with those
around it that were missing. -/
structure Provides (checker after : Checker) (id : FeatureId) (companion : Option FeatureId) :
    Prop where
  lawful : after.features.Lawful
  companion_eq : after.features.companionOf id = companion
  equips : ∃ chain, checker.features.Lacks id chain ∧
    checker.features.Equips after.features chain fun id companion declared mirror =>
      declared.Mirrors mirror ∧
        (checker.WellFormed → declared.Reflects checker after.types id companion mirror)

namespace Provides

variable {after : Checker} {id : FeatureId} {companion : Option FeatureId}
  (provides : checker.Provides after id companion)

include provides

theorem develops : checker.features.Develops after.features := by
  obtain ⟨chain, _, equips⟩ := provides.equips
  intro other declared found
  by_cases member : other ∈ chain
  · obtain ⟨_, _, _, found', _, foundAfter, _⟩ := equips.linked other member
    obtain rfl := Except.ok.inj (found.symm.trans found')
    exact ⟨_, foundAfter, .of_eq rfl rfl rfl⟩
  · exact ⟨declared, equips.kept other declared found member, .refl declared⟩

/-- There is no companion of the universe or of a companion. -/
theorem missing (lawful : checker.features.Lawful) (isMissing : companion = none) :
    id = .universe ∨ after.features.originOf id ≠ none := by
  subst isMissing
  obtain ⟨chain, lacks, equips⟩ := provides.equips
  cases lacks with
  | @nothing _ declared found settled =>
    have foundAfter := equips.kept id declared found (by simp)
    rcases settled with isLinked | isCompanion | outermost
    · exact absurd (FeatureTable.companionOf_eq foundAfter ▸ provides.companion_eq) isLinked
    · refine .inr ?_
      rw [FeatureTable.originOf_eq foundAfter]
      exact Option.isSome_iff_ne_none.mp isCompanion
    · exact .inl ((lawful.outer_eq_none_iff id declared found).mp outermost)
  | companion =>
    obtain ⟨_, _, _, _, _, foundAfter, _⟩ := equips.linked id List.mem_cons_self
    cases (FeatureTable.companionOf_eq foundAfter).symm.trans provides.companion_eq

theorem mirrors_new : MirrorsNew checker.features after.features := by
  intro id companion isMissing isCompanion
  obtain ⟨chain, _, equips⟩ := provides.equips
  obtain ⟨declared, foundAfter, linked⟩ := FeatureTable.exists_of_companionOf isCompanion
  by_cases member : id ∈ chain
  · obtain ⟨before, companion', mirror, _, _, foundLinked, foundMirror, mirrors, _⟩ :=
      equips.linked id member
    obtain rfl := Option.some.inj
      ((FeatureTable.companionOf_eq foundLinked).symm.trans isCompanion)
    exact ⟨_, mirror, foundLinked, foundMirror, mirrors⟩
  · exfalso
    by_cases old : id.index < checker.features.size
    · have found : checker.features.get id = .ok _ :=
        FeatureTable.get_eq_ok_iff.mpr (Array.getElem?_eq_getElem old)
      obtain rfl := Except.ok.inj ((equips.kept id _ found member).symm.trans foundAfter)
      cases (isMissing.symm.trans (FeatureTable.companionOf_eq found)).trans linked
    · obtain ⟨origin, _, link⟩ := equips.created id declared foundAfter (Nat.not_lt.mp old)
      have isOrigin := (provides.lawful.companion_iff origin id).mp link
      have unlinked := provides.lawful.companion_companion id (by simp [isOrigin])
      cases unlinked.symm.trans isCompanion

end Provides

theorem provides_settled (lawful : checker.features.Lawful) {id : FeatureId}
    (found : checker.features.get id = .ok declared)
    (settled : declared.companion ≠ none ∨ declared.isCompanion = true ∨ declared.outer = none) :
    checker.Provides checker id declared.companion :=
  ⟨lawful, FeatureTable.companionOf_eq found, [], .nothing found settled, .refl _⟩

theorem WellFormed.ensures_companionWithin (wellFormed : checker.WellFormed) (depth : Nat)
    (id : FeatureId) :
    Ensures checker (companionWithin depth id) fun after _ =>
      after.WellFormed ∧ checker.Grows after := by
  intro companion after run
  have growing : Lockstep.Growing fun later _ => checker.Grows later :=
    fun growth _ _ advance _ => growth.trans advance.toGrows
  let pair : Lockstep.Pair fun later _ => checker.Grows later :=
    ⟨checker, checker, wellFormed.twins, .refl checker⟩
  have coupled : (lockstep _).couples pair (companionWithin depth id) (companionWithin depth id)
      (lockstep _).Agrees := growing.couples_companionWithin depth id
  obtain ⟨next, rfl, _⟩ := coupled.of_ok run
  exact ⟨next.twins.wellFormed, next.related⟩

section

variable (lawful : checker.features.Lawful)

include lawful

theorem ensures_companionOuterBy {depth : Nat}
    (provides : ∀ id, Ensures checker (companionWithin depth id) fun after companion =>
      Provides checker after id companion) (outer : FeatureId) :
    Ensures checker (companionOuterBy (companionWithin depth) outer) fun after around =>
      after.features.Surrounds outer around ∧
        (∃ companion, checker.Provides after outer companion) ∧
        (checker.WellFormed → after.WellFormed ∧ checker.Grows after) := by
  refine .bind (.feature outer) ?_
  rintro _ declared ⟨rfl, found⟩
  have universe_iff : declared.isUniverse = true ↔ outer = .universe := by
    rw [Feature.isUniverse, Option.isNone_iff_eq_none]
    exact lawful.outer_eq_none_iff outer declared found
  by_cases isUniverse : outer = .universe
  · rw [if_pos (universe_iff.mpr isUniverse)]
    refine .pure ⟨⟨fun notUniverse => absurd isUniverse notUniverse, fun _ => rfl⟩,
      ⟨_, provides_settled lawful found (.inr (.inr ?_))⟩, fun wellFormed => ⟨wellFormed, .refl _⟩⟩
    exact (lawful.outer_eq_none_iff outer declared found).mpr isUniverse
  · rw [if_neg fun outermost => isUniverse (universe_iff.mp outermost)]
    have asks : Ensures checker (companionWithin depth outer) fun after companion =>
        checker.Provides after outer companion ∧
          (checker.WellFormed → after.WellFormed ∧ checker.Grows after) :=
      fun companion after run => ⟨provides outer companion after run, fun wellFormed =>
        wellFormed.ensures_companionWithin depth outer companion after run⟩
    refine .bind asks ?_
    rintro after companion ⟨provided, grows⟩
    refine .pure ⟨⟨fun _ noOrigin => ?_, fun excluded => ?_⟩, ⟨_, provided⟩, grows⟩
    · cases isCompanion : companion with
      | none =>
        rcases provided.missing lawful isCompanion with inUniverse | hasOrigin
        · exact absurd inUniverse isUniverse
        · exact absurd noOrigin hasOrigin
      | some around => exact provided.companion_eq.trans isCompanion
    · have hasOrigin := excluded.resolve_left isUniverse
      rw [← provided.companion_eq, provided.lawful.companion_companion outer hasOrigin]
      rfl

theorem ensures_companionWithin (depth : Nat) (id : FeatureId) :
    Ensures checker (companionWithin depth id) fun after companion =>
      Provides checker after id companion := by
  induction depth generalizing checker id with
  | zero => exact .fail .depthExceeded _
  | succ depth ih =>
    refine .bind (.feature id) ?_
    rintro _ declared ⟨rfl, found⟩
    cases isCompanion : declared.companion with
    | some companion =>
      exact .pure (isCompanion ▸ provides_settled lawful found (.inl (by simp [isCompanion])))
    | none =>
      cases isOuter : declared.outer with
      | none => exact .pure (isCompanion ▸ provides_settled lawful found (.inr (.inr isOuter)))
      | some outer =>
        dsimp only
        cases hasOrigin : declared.isCompanion with
        | true =>
          rw [if_pos rfl]
          exact .pure (isCompanion ▸ provides_settled lawful found (.inr (.inl hasOrigin)))
        | false =>
          rw [if_neg Bool.false_ne_true]
          refine .bind (ensures_companionOuterBy lawful (fun id => ih lawful id) outer) ?_
          rintro between around ⟨surrounds, ⟨_, provided⟩, grows⟩
          obtain ⟨chain, lacks, equips⟩ := provided.equips
          -- Companions were created for features around only, so this one has none yet.
          have isNew : id ∉ chain := fun member =>
            Nat.not_le.mpr
              (lawful.outer_lt id outer ((FeatureTable.outerOf_eq found).trans isOuter))
              (lacks.index_le lawful id member)
          have plain : declared.origin = none := by simpa [Feature.isCompanion] using hasOrigin
          refine .bind (ensures_createCompanion provided.lawful
            (equips.kept id declared found isNew) isCompanion plain isOuter surrounds) ?_
          rintro after companion
            ⟨rfl, lawful', typeRootEq, mirror, extended, originEq, mirrors, reflects⟩
          have reflects : checker.WellFormed → after.types.Canonical ∧
              between.types.Extends after.types ∧
                declared.Reflects checker after.types id ⟨between.features.size⟩ mirror := by
            intro wellFormed
            obtain ⟨wellFormed', growth⟩ := grows wellFormed
            exact reflects checker ⟨wellFormed, lawful, growth.types_extend, growth.features_grow,
              wellFormed'⟩ found
          have earlier : checker.features.Equips between.features chain
              fun id companion declared mirror => declared.Mirrors mirror ∧
                (checker.WellFormed →
                  declared.Reflects checker after.types id companion mirror) := by
            refine equips.mono fun id companion declared mirror _ asIs => ?_
            refine asIs.imp_right fun reflected wellFormed => ?_
            obtain ⟨canonical, extension, _⟩ := reflects wellFormed
            exact (reflected wellFormed).of_extends
              (grows wellFormed).1.types_canonical.toCoherent canonical.toCoherent extension
          refine .pure ⟨lawful', ?_, id :: chain,
            .companion found isCompanion hasOrigin isOuter lacks,
            earlier.extended found isNew extended typeRootEq
              ⟨mirrors, fun wellFormed => (reflects wellFormed).2.2⟩⟩
          rw [lawful'.companion_iff, FeatureTable.originOf_eq extended.get_new, originEq]

end

theorem run_companion? {id companion : FeatureId}
    (isCompanion : checker.features.companionOf id = some companion) :
    (companion? id).run checker = .ok (some companion) checker := by
  obtain ⟨declared, found, linked⟩ := FeatureTable.exists_of_companionOf isCompanion
  simp only [companion?, companionWithin, EStateM.run_bind, run_feature checker found, linked]
  rfl

end Checker

end FeatureTypes

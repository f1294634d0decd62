import FeatureTypes.Proofs.Feature.Growth

/-!
# The laws of feature tables

In a lawful table every feature but the universe lies in a feature declared before it and is
named after it, formals are numbered with at most the last one open, and companions and
their origins are linked both ways.
-/

namespace FeatureTypes

variable {declared : Feature} {outer companion : FeatureId}

/-- The formals are numbered in order, and only the last one may be open. -/
def Feature.Numbered (id : FeatureId) (declared : Feature) : Prop :=
  ∀ position formal, declared.formals[position]? = some formal →
    formal.id = ⟨id, position⟩ ∧ (formal.isOpen = true → position + 1 = declared.formals.length)

theorem Feature.Numbered.withFormal {id : FeatureId} (numbered : declared.Numbered id)
    (closed : declared.endsOpen = false) {formal : Formal}
    (formalId : formal.id = ⟨id, declared.formals.length⟩) :
    Feature.Numbered id { declared with formals := declared.formals ++ [formal] } := by
  intro position formal' present
  rw [List.length_append, List.length_singleton]
  rw [List.getElem?_append] at present
  split at present
  · have ⟨idEq, last⟩ := numbered position formal' present
    refine ⟨idEq, fun isOpen => ?_⟩
    have isLast := last isOpen
    have endsOpen : declared.endsOpen = true := by
      rw [Feature.endsOpen, List.getLast?_eq_getElem?, ← isLast, Nat.add_sub_cancel, present]
      exact isOpen
    rw [closed] at endsOpen
    cases endsOpen
  · rw [List.getElem?_singleton] at present
    split at present
    · obtain rfl := Option.some.inj present
      have isNew : position = declared.formals.length := by omega
      exact ⟨isNew ▸ formalId, fun _ => by rw [isNew]⟩
    · cases present

namespace FeatureTable

variable {table table' : FeatureTable}

/-! ## Look-ups -/

/-- The feature in which `id` is declared. -/
def outerOf (table : FeatureTable) (id : FeatureId) : Option FeatureId :=
  (table.get id).toOption.bind Feature.outer

/-- The companion of `id`, if it has been created. -/
def companionOf (table : FeatureTable) (id : FeatureId) : Option FeatureId :=
  (table.get id).toOption.bind Feature.companion

/-- The feature whose companion `id` is. -/
def originOf (table : FeatureTable) (id : FeatureId) : Option FeatureId :=
  (table.get id).toOption.bind Feature.origin

/-- The formals that `id` declares. -/
def formalsOf (table : FeatureTable) (id : FeatureId) : List Formal :=
  (table.get id).toOption.elim [] Feature.formals

section

variable {id : FeatureId} {declared : Feature} (found : table.get id = .ok declared)

include found

theorem outerOf_eq : table.outerOf id = declared.outer := by
  rw [outerOf, found]
  rfl

theorem companionOf_eq : table.companionOf id = declared.companion := by
  rw [companionOf, found]
  rfl

theorem originOf_eq : table.originOf id = declared.origin := by
  rw [originOf, found]
  rfl

theorem formalsOf_eq : table.formalsOf id = declared.formals := by
  rw [formalsOf, found]
  rfl

end

theorem exists_of_companionOf {id : FeatureId}
    (isCompanion : table.companionOf id = some companion) :
    ∃ declared, table.get id = .ok declared ∧ declared.companion = some companion := by
  cases found : table.get id with
  | error failure => simp [companionOf, found, Except.toOption] at isCompanion
  | ok declared => exact ⟨declared, rfl, (companionOf_eq found).symm.trans isCompanion⟩

theorem exists_of_originOf {id origin : FeatureId} (isOrigin : table.originOf id = some origin) :
    ∃ declared, table.get id = .ok declared ∧ declared.origin = some origin := by
  cases found : table.get id with
  | error failure => simp [originOf, found, Except.toOption] at isOrigin
  | ok declared => exact ⟨declared, rfl, (originOf_eq found).symm.trans isOrigin⟩

theorem exists_of_outerOf {id : FeatureId} (isOuter : table.outerOf id = some outer) :
    ∃ declared, table.get id = .ok declared ∧ declared.outer = some outer := by
  cases found : table.get id with
  | error failure => simp [outerOf, found, Except.toOption] at isOuter
  | ok declared => exact ⟨declared, rfl, (outerOf_eq found).symm.trans isOuter⟩

/-! ## Features within features -/

/-- The feature is called by its own name in the universe, and elsewhere by its own name
behind the one of the feature around it. -/
def Names (table : FeatureTable) (outer : FeatureId) (declared : Feature) : Prop :=
  (outer = .universe → declared.qualifiedName = declared.name) ∧
    (outer ≠ .universe → ∃ around, table.get outer = .ok around ∧
      declared.qualifiedName = around.qualifiedName ++ "." ++ declared.name)

/-- Every feature but the universe lies in a feature that was declared before it, and is named
after it. -/
structure Nested (table : FeatureTable) : Prop where
  universe_declared : ∃ declared, table.get .universe = .ok declared
  outer_eq_none_iff : ∀ id declared, table.get id = .ok declared →
    (declared.outer = none ↔ id = .universe)
  inside : ∀ id declared outer, table.get id = .ok declared → declared.outer = some outer →
    outer.index < id.index ∧ (∃ around, table.get outer = .ok around) ∧ table.Names outer declared

theorem Names.of_develops {declared' : Feature} (names : table.Names outer declared)
    (develops : table.Develops table') (seatEq : declared'.seat = declared.seat) :
    table'.Names outer declared' := by
  obtain ⟨nameEq, qualifiedEq, _⟩ := Feature.seat_eq_iff.mp seatEq
  refine ⟨fun isUniverse => ?_, fun notUniverse => ?_⟩
  · rw [nameEq, qualifiedEq, names.1 isUniverse]
  · obtain ⟨around, found, named⟩ := names.2 notUniverse
    obtain ⟨around', found', kept⟩ := develops outer around found
    have aroundEq := (Feature.seat_eq_iff.mp kept.seat_eq).2.1
    exact ⟨around', found', by rw [qualifiedEq, named, aroundEq, nameEq]⟩

namespace Nested

theorem initial : FeatureTable.initial.Nested := by
  have universeOnly : ∀ id declared, FeatureTable.initial.get id = .ok declared →
      id = .universe ∧ declared.outer = none := forall_declared (by decide)
  refine ⟨⟨_, rfl⟩, fun id declared found => ?_, fun id declared outer found inside => ?_⟩
  · simp only [universeOnly id declared found]
  · rw [(universeOnly id declared found).2] at inside
    cases inside

variable (nested : table.Nested)

include nested

theorem outer_lt (id outer : FeatureId) (isOuter : table.outerOf id = some outer) :
    outer.index < id.index := by
  obtain ⟨declared, found, inside⟩ := exists_of_outerOf isOuter
  exact (nested.inside id declared outer found inside).1

theorem named (id : FeatureId) (declared : Feature) (outer : FeatureId)
    (found : table.get id = .ok declared) (inside : declared.outer = some outer) :
    table.Names outer declared :=
  (nested.inside id declared outer found inside).2.2

/-- A table stays nested when its features do and every further one lies in one of them. -/
theorem grow (develops : table.Develops table')
    (further : ∀ id declared', table'.get id = .ok declared' →
      (∃ declared, table.get id = .ok declared) ∨
        ∃ outer, declared'.outer = some outer ∧ outer.index < id.index ∧
          (∃ around, table.get outer = .ok around) ∧ table.Names outer declared') :
    table'.Nested := by
  have remains : ∀ {id : FeatureId}, (∃ declared, table.get id = .ok declared) →
      ∃ declared', table'.get id = .ok declared' := by
    rintro id ⟨declared, found⟩
    exact (develops id declared found).imp fun _ kept => kept.1
  refine ⟨remains nested.universe_declared, ?_, ?_⟩
  · intro id declared' found'
    rcases further id declared' found' with ⟨declared, found⟩ | ⟨outer, isOuter, below, _⟩
    · obtain ⟨_, foundLater, kept⟩ := develops id declared found
      obtain rfl := Except.ok.inj (foundLater.symm.trans found')
      rw [(Feature.seat_eq_iff.mp kept.seat_eq).2.2.1, nested.outer_eq_none_iff id declared found]
    · rw [isOuter]
      refine ⟨fun impossible => (by cases impossible), ?_⟩
      rintro rfl
      exact absurd below (Nat.not_lt_zero _)
  · intro id declared' outer found' isOuter'
    rcases further id declared' found' with
      ⟨declared, found⟩ | ⟨outer', isOuter, below, around, names⟩
    · obtain ⟨_, foundLater, kept⟩ := develops id declared found
      obtain rfl := Except.ok.inj (foundLater.symm.trans found')
      have outerEq := (Feature.seat_eq_iff.mp kept.seat_eq).2.2.1
      obtain ⟨below, around, names⟩ :=
        nested.inside id declared outer found (outerEq.symm.trans isOuter')
      exact ⟨below, remains around, names.of_develops develops kept.seat_eq⟩
    · obtain rfl := Option.some.inj (isOuter.symm.trans isOuter')
      exact ⟨below, remains around, names.of_develops develops rfl⟩

theorem edit {id : FeatureId} {before after : Feature} (found : table.get id = .ok before)
    (update : table.Update table' id after) (develops : before.Develops after) :
    table'.Nested := by
  refine nested.grow (update.develops found develops) ?_
  intro other declared' found'
  by_cases isEdited : other = id
  · exact .inl ⟨before, isEdited ▸ found⟩
  · exact .inl ⟨declared', (update.get_other other isEdited).symm.trans found'⟩

theorem declare_names {name : String} {id : FeatureId} {isRef : Bool} {origin : Option FeatureId}
    (declared : table.declare name outer isRef origin = .ok (id, table')) :
    id = ⟨table.size⟩ ∧ ∃ qualifiedName, (∃ around, table.get outer = .ok around) ∧
      table.Names outer { name, qualifiedName, outer := some outer, isRef, origin } ∧
        table.Update table' id { name, qualifiedName, outer := some outer, isRef, origin } := by
  obtain ⟨idEq, qualifiedName, qualified, update⟩ := declare_update declared
  refine ⟨idEq, qualifiedName, ?_⟩
  unfold qualify at qualified
  by_cases isUniverse : outer = .universe
  · rw [if_pos isUniverse] at qualified
    have nameEq : name = qualifiedName := Except.ok.inj qualified
    exact ⟨isUniverse ▸ nested.universe_declared,
      ⟨fun _ => nameEq.symm, fun notUniverse => absurd isUniverse notUniverse⟩, update⟩
  · rw [if_neg isUniverse] at qualified
    obtain ⟨around, found, called⟩ := except_bind_eq_ok qualified
    have nameEq : around.qualifiedName ++ "." ++ name = qualifiedName := Except.ok.inj called
    exact ⟨⟨around, found⟩, ⟨fun inUniverse => absurd inUniverse isUniverse,
      fun _ => ⟨around, found, nameEq.symm⟩⟩, update⟩

end Nested

/-! ## The laws -/

/-- The companion of a feature inside `outer` belongs inside `around`: the companion of
`outer`, or the universe if `outer` cannot have one. -/
def Surrounds (table : FeatureTable) (outer around : FeatureId) : Prop :=
  (outer ≠ .universe → table.originOf outer = none → table.companionOf outer = some around) ∧
    (outer = .universe ∨ table.originOf outer ≠ none → around = .universe)

/-- What holds of every table that is declared without failure. -/
structure Lawful (table : FeatureTable) : Prop where
  universe_declared : ∃ declared, table.get .universe = .ok declared
  outer_eq_none_iff : ∀ id declared, table.get id = .ok declared →
    (declared.outer = none ↔ id = .universe)
  outer_lt : ∀ id outer, table.outerOf id = some outer → outer.index < id.index
  named : ∀ id declared outer, table.get id = .ok declared → declared.outer = some outer →
    table.Names outer declared
  numbered : ∀ id declared, table.get id = .ok declared → declared.Numbered id
  companion_iff : ∀ id companion,
    table.companionOf id = some companion ↔ table.originOf companion = some id
  companion_universe : table.companionOf .universe = none
  companion_companion : ∀ id, table.originOf id ≠ none → table.companionOf id = none
  companion_outer : ∀ id companion outer, table.companionOf id = some companion →
    table.outerOf id = some outer →
      ∃ around, table.outerOf companion = some around ∧ table.Surrounds outer around

theorem Lawful.nested (lawful : table.Lawful) : table.Nested := by
  refine ⟨lawful.universe_declared, lawful.outer_eq_none_iff, ?_⟩
  intro id declared outer found inside
  have names := lawful.named id declared outer found inside
  refine ⟨lawful.outer_lt id outer ((outerOf_eq found).trans inside), ?_, names⟩
  by_cases isUniverse : outer = .universe
  · exact isUniverse ▸ lawful.universe_declared
  · exact (names.2 isUniverse).imp fun _ around => around.1

theorem formalName_eq_of_get {id : FeatureId} (found : table.get id = .ok declared) {position : Nat}
    {formal : Formal} (present : declared.formals[position]? = some formal) :
    table.formalName ⟨id, position⟩ = .ok formal.name := by
  have formalFound : table.formal? ⟨id, position⟩ = .ok (some formal) := by
    rw [formal?, found]
    exact congrArg Except.ok present
  rw [formalName, formalFound]
  rfl

/-- A formal is found under its own number, and so is its name. -/
theorem Lawful.formalName_eq (lawful : table.Lawful) {id : FeatureId}
    (found : table.get id = .ok declared) {formal : Formal} (member : formal ∈ declared.formals) :
    table.formalName formal.id = .ok formal.name := by
  obtain ⟨position, present⟩ := List.mem_iff_getElem?.mp member
  rw [(lawful.numbered id declared found position formal present).1]
  exact formalName_eq_of_get found present

/-- The universe alone is a lawful table. -/
theorem initial_lawful : FeatureTable.initial.Lawful := by
  have universeOnly : ∀ id declared, FeatureTable.initial.get id = .ok declared →
      declared.formals = [] ∧ declared.companion = none ∧ declared.origin = none :=
    forall_declared (by decide)
  have noCompanion : ∀ id, FeatureTable.initial.companionOf id = none := by
    intro id
    cases isCompanion : FeatureTable.initial.companionOf id with
    | none => rfl
    | some companion =>
      obtain ⟨declared, found, linked⟩ := exists_of_companionOf isCompanion
      rw [(universeOnly id declared found).2.1] at linked
      cases linked
  have noOrigin : ∀ id, FeatureTable.initial.originOf id = none := by
    intro id
    cases isOrigin : FeatureTable.initial.originOf id with
    | none => rfl
    | some origin =>
      obtain ⟨declared, found, linked⟩ := exists_of_originOf isOrigin
      rw [(universeOnly id declared found).2.2] at linked
      cases linked
  have nested := Nested.initial
  refine ⟨nested.universe_declared, nested.outer_eq_none_iff, nested.outer_lt, nested.named, ?_,
    ?_, noCompanion _, fun id _ => noCompanion id, ?_⟩
  · intro id declared found position formal present
    rw [(universeOnly id declared found).1] at present
    cases present
  · intro id companion
    simp only [noCompanion, noOrigin, reduceCtorEq]
  · intro id companion outer isCompanion
    rw [noCompanion] at isCompanion
    cases isCompanion

theorem addFormal_closed {owner : FeatureId} {name : String} {constraint : TypeId} {isOpen : Bool}
    {span : Span} {id : FormalId}
    (added : table.addFormal owner name constraint isOpen span = .ok (id, table'))
    (found : table.get owner = .ok declared) : declared.endsOpen = false := by
  obtain ⟨declared', found', result⟩ := except_bind_eq_ok added
  obtain rfl := Except.ok.inj (found.symm.trans found')
  cases isClosed : declared.endsOpen with
  | false => rfl
  | true =>
    rw [isClosed] at result
    cases result

/-! ## Changed features -/

/-- A feature may gain formals and parents. -/
theorem Lawful.edit (lawful : table.Lawful) {id : FeatureId} {before after : Feature}
    (found : table.get id = .ok before) (update : table.Update table' id after)
    (develops : before.Develops after) (companionEq : after.companion = before.companion)
    (numbered : after.Numbered id) : table'.Lawful := by
  obtain ⟨_, _, outerEq, _, originEq⟩ := Feature.seat_eq_iff.mp develops.seat_eq
  have lookups : ∀ other, table'.outerOf other = table.outerOf other ∧
      table'.companionOf other = table.companionOf other ∧
        table'.originOf other = table.originOf other := by
    intro other
    by_cases isEdited : other = id
    · subst isEdited
      simp only [outerOf_eq found, outerOf_eq update.get_self, companionOf_eq found,
        companionOf_eq update.get_self, originOf_eq found, originOf_eq update.get_self,
        outerEq, companionEq, originEq, and_self]
    · simp only [outerOf, companionOf, originOf, update.get_other other isEdited, and_self]
  have outers := fun other => (lookups other).1
  have companions := fun other => (lookups other).2.1
  have origins := fun other => (lookups other).2.2
  have nested := lawful.nested.edit found update develops
  refine ⟨nested.universe_declared, nested.outer_eq_none_iff, nested.outer_lt, nested.named, ?_,
    ?_, ?_, ?_, ?_⟩
  · intro other declared' found'
    by_cases isEdited : other = id
    · subst isEdited
      obtain rfl := Except.ok.inj (update.get_self.symm.trans found')
      exact numbered
    · exact lawful.numbered other declared' ((update.get_other other isEdited).symm.trans found')
  · intro other companion
    rw [companions, origins]
    exact lawful.companion_iff other companion
  · rw [companions]
    exact lawful.companion_universe
  · intro other
    rw [companions, origins]
    exact lawful.companion_companion other
  · intro other companion outer
    rw [companions, outers, outers]
    simp only [Surrounds, companions, origins]
    exact lawful.companion_outer other companion outer

/-! ## New features -/

/-- The later table has one feature more, which is the companion of `linked` if that is
given. -/
structure Extended (table table' : FeatureTable) (linked : Option FeatureId) (new : Feature) :
    Prop where
  get_new : table'.get ⟨table.size⟩ = .ok new
  get_old : ∀ id, id ≠ ⟨table.size⟩ → table'.get id = (table.get id).map fun declared =>
    if linked = some id then { declared with companion := some ⟨table.size⟩ } else declared

theorem get_size (table : FeatureTable) : table.get ⟨table.size⟩ = .error .unknownFeature := by
  simp [get, size]

namespace Extended

variable {linked : Option FeatureId} {new : Feature} (extended : table.Extended table' linked new)

include extended

theorem get_cases {id : FeatureId} {declared' : Feature} (found : table'.get id = .ok declared') :
    (id = ⟨table.size⟩ ∧ declared' = new) ∨ (id ≠ ⟨table.size⟩ ∧ ∃ declared,
      table.get id = .ok declared ∧ declared' =
        if linked = some id then { declared with companion := some ⟨table.size⟩ }
          else declared) := by
  by_cases isNew : id = ⟨table.size⟩
  · subst isNew
    exact Or.inl ⟨rfl, Except.ok.inj (found.symm.trans extended.get_new)⟩
  · rw [extended.get_old id isNew] at found
    cases foundOld : table.get id with
    | error failure => simp [foundOld, Except.map] at found
    | ok declared =>
      rw [foundOld] at found
      exact Or.inr ⟨isNew, declared, rfl, (Except.ok.inj found).symm⟩

theorem outerOf_old {id : FeatureId} (isOld : id ≠ ⟨table.size⟩) :
    table'.outerOf id = table.outerOf id := by
  rw [outerOf, outerOf, extended.get_old id isOld]
  cases table.get id with
  | error failure => rfl
  | ok declared =>
    by_cases isLinked : linked = some id <;> simp [Except.map, isLinked, Except.toOption]

theorem originOf_old {id : FeatureId} (isOld : id ≠ ⟨table.size⟩) :
    table'.originOf id = table.originOf id := by
  rw [originOf, originOf, extended.get_old id isOld]
  cases table.get id with
  | error failure => rfl
  | ok declared =>
    by_cases isLinked : linked = some id <;> simp [Except.map, isLinked, Except.toOption]

theorem companionOf_old {id : FeatureId} (isOld : id ≠ ⟨table.size⟩) (unlinked : linked ≠ some id) :
    table'.companionOf id = table.companionOf id := by
  rw [companionOf, companionOf, extended.get_old id isOld]
  cases table.get id with
  | error failure => rfl
  | ok declared => simp [Except.map, unlinked]

theorem develops : table.Develops table' := by
  intro id declared found
  have isOld : id ≠ ⟨table.size⟩ := by
    rintro rfl
    exact Nat.lt_irrefl _ (index_lt_size found)
  rw [extended.get_old id isOld, found]
  refine ⟨_, rfl, ?_⟩
  split <;> exact .of_eq rfl rfl rfl

end Extended

theorem Nested.extended (nested : table.Nested) {linked : Option FeatureId} {new : Feature}
    (extended : table.Extended table' linked new)
    (inside : ∃ outer, new.outer = some outer ∧ (∃ around, table.get outer = .ok around) ∧
      table.Names outer new) : table'.Nested := by
  refine nested.grow extended.develops ?_
  intro id declared' found'
  rcases extended.get_cases found' with ⟨rfl, rfl⟩ | ⟨_, declared, found, _⟩
  · obtain ⟨outer, isOuter, ⟨around, found⟩, names⟩ := inside
    exact .inr ⟨outer, isOuter, index_lt_size found, ⟨around, found⟩, names⟩
  · exact .inl ⟨declared, found⟩

theorem Update.refl {id : FeatureId} (found : table.get id = .ok declared) :
    table.Update table id declared :=
  ⟨rfl, found, fun _ _ => rfl⟩

theorem Update.trans {table'' : FeatureTable} {id : FeatureId} {declared' : Feature}
    (first : table.Update table' id declared) (second : table'.Update table'' id declared') :
    table.Update table'' id declared' :=
  ⟨second.typeRoot_eq.trans first.typeRoot_eq, second.get_self,
    fun other different => (second.get_other other different).trans
      (first.get_other other different)⟩

theorem Update.extended {new : Feature} (update : table.Update table' ⟨table.size⟩ new) :
    table.Extended table' none new := by
  refine ⟨update.get_self, fun id isOld => ?_⟩
  rw [update.get_other id isOld]
  cases table.get id <;> rfl

theorem Update.extended_linked {table'' : FeatureTable} {new : Feature} {origin : FeatureId}
    (update : table.Update table' ⟨table.size⟩ new) (found : table.get origin = .ok declared)
    (link : table'.Update table'' origin { declared with companion := some ⟨table.size⟩ }) :
    table.Extended table'' (some origin) new := by
  have isOld : origin ≠ ⟨table.size⟩ := by
    rintro rfl
    exact Nat.lt_irrefl _ (index_lt_size found)
  refine ⟨(link.get_other _ isOld.symm).trans update.get_self, fun id different => ?_⟩
  by_cases isOrigin : id = origin
  · rw [isOrigin, link.get_self, found]
    simp [Except.map]
  · rw [link.get_other id isOrigin, update.get_other id different]
    have unlinked : some origin ≠ some id := fun same => isOrigin (Option.some.inj same).symm
    simp only [unlinked, if_false]
    cases table.get id <;> rfl

theorem develops_of_declare {name : String} {id : FeatureId} {isRef : Bool}
    {origin : Option FeatureId}
    (declared : table.declare name outer isRef origin = .ok (id, table')) :
    table.Develops table' := by
  obtain ⟨rfl, _, _, update⟩ := declare_update declared
  exact update.extended.develops

/-- What the features around a new one have to be like. -/
structure Fresh (table : FeatureTable) (linked : Option FeatureId) (new : Feature) : Prop where
  inside : ∃ outer, new.outer = some outer ∧ (∃ around, table.get outer = .ok around) ∧
    table.Names outer new
  numbered : new.Numbered ⟨table.size⟩
  companion_eq : new.companion = none
  origin_eq : new.origin = linked
  unlinked : ∀ origin, linked = some origin → table.companionOf origin = none ∧
    table.originOf origin = none ∧ ∃ outer around, table.outerOf origin = some outer ∧
      new.outer = some around ∧ table.Surrounds outer around

namespace Lawful

variable {linked : Option FeatureId} {new : Feature}

variable (lawful : table.Lawful)

include lawful

theorem index_lt_of_companionOf {id : FeatureId}
    (isCompanion : table.companionOf id = some companion) : companion.index < table.size := by
  obtain ⟨_, found, _⟩ := exists_of_originOf ((lawful.companion_iff id companion).mp isCompanion)
  exact index_lt_size found

theorem outer_declared {id : FeatureId} (isOuter : table.outerOf id = some outer) :
    ∃ declared, table.get outer = .ok declared := by
  obtain ⟨declared, found, inside⟩ := exists_of_outerOf isOuter
  exact (lawful.nested.inside id declared outer found inside).2.1

theorem exists_outerOf_companion {origin : FeatureId}
    (isOrigin : table.originOf companion = some origin) :
    ∃ outer, table.outerOf companion = some outer := by
  have isCompanion := (lawful.companion_iff origin companion).mpr isOrigin
  obtain ⟨declared, found, _⟩ := exists_of_companionOf isCompanion
  cases isOuter : declared.outer with
  | none =>
    rw [(lawful.outer_eq_none_iff origin declared found).mp isOuter,
      lawful.companion_universe] at isCompanion
    cases isCompanion
  | some outer =>
    obtain ⟨around, aroundOuter, _⟩ := lawful.companion_outer origin companion outer isCompanion
      ((outerOf_eq found).trans isOuter)
    exact ⟨around, aroundOuter⟩

theorem companion_iff_of_extended (extended : table.Extended table' linked new)
    (fresh : table.Fresh linked new) (id companion : FeatureId) :
    table'.companionOf id = some companion ↔ table'.originOf companion = some id := by
  have unknown := get_size table
  have newCompanion : table'.companionOf ⟨table.size⟩ = none :=
    (companionOf_eq extended.get_new).trans fresh.companion_eq
  have newOrigin : table'.originOf ⟨table.size⟩ = linked :=
    (originOf_eq extended.get_new).trans fresh.origin_eq
  by_cases isNew : id = ⟨table.size⟩
  · -- Nothing has the new feature as its origin.
    subst isNew
    rw [newCompanion]
    refine ⟨fun impossible => (by cases impossible), fun isOrigin => ?_⟩
    by_cases isNew' : companion = ⟨table.size⟩
    · rw [isNew', newOrigin] at isOrigin
      have unlinked := (fresh.unlinked _ isOrigin).2.2
      simp [outerOf, unknown, Except.toOption] at unlinked
    · rw [extended.originOf_old isNew', ← lawful.companion_iff] at isOrigin
      simp [companionOf, unknown, Except.toOption] at isOrigin
  · by_cases isLinked : linked = some id
    · -- The new feature is the only one whose origin is the linked feature.
      have unlinked := (fresh.unlinked id isLinked).1
      obtain ⟨_, _, outer, around, isOuter, _⟩ := fresh.unlinked id isLinked
      obtain ⟨declared, found, _⟩ := exists_of_outerOf isOuter
      have linkedCompanion : table'.companionOf id = some ⟨table.size⟩ := by
        rw [companionOf, extended.get_old id isNew, found]
        simp [Except.map, isLinked, Except.toOption]
      rw [linkedCompanion, Option.some.injEq]
      refine ⟨fun isNew' => (by rw [← isNew', newOrigin, isLinked]), fun isOrigin => ?_⟩
      by_cases isNew' : companion = ⟨table.size⟩
      · exact isNew'.symm
      · rw [extended.originOf_old isNew', ← lawful.companion_iff, unlinked] at isOrigin
        cases isOrigin
    · rw [extended.companionOf_old isNew isLinked, lawful.companion_iff]
      by_cases isNew' : companion = ⟨table.size⟩
      · rw [isNew', newOrigin, originOf, unknown]
        simp [Except.toOption, isLinked]
      · rw [extended.originOf_old isNew']

theorem companion_outer_of_extended (extended : table.Extended table' linked new)
    (fresh : table.Fresh linked new) {id : FeatureId}
    (isCompanion : table'.companionOf id = some companion)
    (isOuter : table'.outerOf id = some outer) :
    ∃ around, table'.outerOf companion = some around ∧ table'.Surrounds outer around := by
  have isOld : id ≠ ⟨table.size⟩ := by
    rintro rfl
    rw [companionOf_eq extended.get_new, fresh.companion_eq] at isCompanion
    cases isCompanion
  rw [extended.outerOf_old isOld] at isOuter
  obtain ⟨declared, found, _⟩ := exists_of_outerOf isOuter
  have below := lawful.outer_lt id outer isOuter
  have outerOld : outer ≠ ⟨table.size⟩ := by
    rintro rfl
    exact absurd (index_lt_size found) (Nat.not_lt.mpr (Nat.le_of_lt below))
  by_cases isLinked : linked = some id
  · obtain ⟨_, _, outer', around, isOuter', newOuter, surrounds⟩ := fresh.unlinked id isLinked
    obtain rfl := Option.some.inj (isOuter.symm.trans isOuter')
    have isNew : companion = ⟨table.size⟩ := by
      rw [companionOf, extended.get_old id isOld, found] at isCompanion
      simpa [Except.map, isLinked, Except.toOption] using isCompanion.symm
    have outerUnlinked : linked ≠ some outer := by
      rw [isLinked]
      rintro same
      rw [Option.some.inj same] at below
      exact Nat.lt_irrefl _ below
    refine ⟨around, ?_, ?_⟩
    · rw [isNew, outerOf_eq extended.get_new, newOuter]
    · rwa [Surrounds, extended.originOf_old outerOld,
        extended.companionOf_old outerOld outerUnlinked]
  · rw [extended.companionOf_old isOld isLinked] at isCompanion
    have companionOld : companion ≠ ⟨table.size⟩ := by
      rintro rfl
      exact Nat.lt_irrefl _ (lawful.index_lt_of_companionOf isCompanion)
    obtain ⟨around, aroundOuter, surrounds⟩ :=
      lawful.companion_outer id companion outer isCompanion isOuter
    refine ⟨around, (extended.outerOf_old companionOld).trans aroundOuter, ?_⟩
    -- The linked feature has no companion yet, so no feature inside it has one.
    have outerUnlinked : linked ≠ some outer ∨ outer = .universe := by
      by_cases isUniverse : outer = .universe
      · exact Or.inr isUniverse
      · refine Or.inl fun outerLinked => ?_
        obtain ⟨noCompanion, noOrigin, _⟩ := fresh.unlinked outer outerLinked
        rw [surrounds.1 isUniverse noOrigin] at noCompanion
        cases noCompanion
    rw [Surrounds, extended.originOf_old outerOld]
    refine ⟨fun notUniverse noOrigin => ?_, surrounds.2⟩
    rw [extended.companionOf_old outerOld (outerUnlinked.resolve_right notUniverse)]
    exact surrounds.1 notUniverse noOrigin

/-- A new feature may come with a link from its origin. -/
theorem extended (extended : table.Extended table' linked new) (fresh : table.Fresh linked new) :
    table'.Lawful := by
  obtain ⟨outermost, universeFound⟩ := lawful.universe_declared
  have universeOld : FeatureId.universe ≠ ⟨table.size⟩ := by
    intro isNew
    have bound := index_lt_size universeFound
    rw [isNew] at bound
    exact Nat.lt_irrefl _ bound
  have universeUnlinked : linked ≠ some .universe := by
    intro isLinked
    obtain ⟨_, _, outer, _, isOuter, _⟩ := fresh.unlinked _ isLinked
    exact Nat.not_lt_zero _ (lawful.outer_lt _ _ isOuter)
  have nested := lawful.nested.extended extended fresh.inside
  refine ⟨nested.universe_declared, nested.outer_eq_none_iff, nested.outer_lt, nested.named, ?_,
    lawful.companion_iff_of_extended extended fresh, ?_, ?_, ?_⟩
  · intro id declared' found
    rcases extended.get_cases found with ⟨rfl, rfl⟩ | ⟨isOld, declared, foundOld, rfl⟩
    · exact fresh.numbered
    · have law := lawful.numbered id declared foundOld
      split <;> exact law
  · rw [extended.companionOf_old universeOld universeUnlinked]
    exact lawful.companion_universe
  · intro id isCompanion
    by_cases isNew : id = ⟨table.size⟩
    · rw [isNew, companionOf_eq extended.get_new, fresh.companion_eq]
    · rw [extended.originOf_old isNew] at isCompanion
      rw [extended.companionOf_old isNew fun isLinked =>
        isCompanion (fresh.unlinked id isLinked).2.1]
      exact lawful.companion_companion id isCompanion
  · intro id companion outer isCompanion isOuter
    exact lawful.companion_outer_of_extended extended fresh isCompanion isOuter

end Lawful

/-! ## Declarations -/

/-- What a declaration makes of a table. -/
inductive Gains (table : FeatureTable) : FeatureTable → Prop
  | feature {table' : FeatureTable} {name : String} {outer id : FeatureId} {isRef : Bool}
      (declared : table.declare name outer isRef none = .ok (id, table')) : Gains table table'
  | formal {table' : FeatureTable} {owner : FeatureId} {name : String} {constraint : TypeId}
      {isOpen : Bool} {span : Span} {id : FormalId}
      (added : table.addFormal owner name constraint isOpen span = .ok (id, table')) :
      Gains table table'
  | edit {table' : FeatureTable} {id : FeatureId} {edit : Feature → Feature}
      (modified : table.modify id edit = .ok table')
      (develops : ∀ declared : Feature, declared.Develops (edit declared))
      (formals_eq : ∀ declared : Feature, (edit declared).formals = declared.formals)
      (companion_eq : ∀ declared : Feature, (edit declared).companion = declared.companion) :
      Gains table table'
  | typeRoot (root : FeatureId) : Gains table { table with typeRoot := some root }

/-- No declaration takes anything away. -/
theorem Gains.develops (gains : table.Gains table') : table.Develops table' := by
  cases gains with
  | feature declared => exact develops_of_declare declared
  | formal added => exact develops_of_addFormal added
  | edit modified develops => exact develops_of_modify modified develops
  | typeRoot root => exact .refl table

/-- Every declaration keeps the laws. -/
theorem Lawful.gain (lawful : table.Lawful) (gains : table.Gains table') : table'.Lawful := by
  cases gains with
  | feature declared =>
    obtain ⟨rfl, qualifiedName, around, names, update⟩ := lawful.nested.declare_names declared
    refine lawful.extended update.extended ⟨⟨_, rfl, around, names⟩, ?_, rfl, rfl, ?_⟩
    · intro position formal present
      cases present
    · intro origin isLinked
      cases isLinked
  | formal added =>
    obtain ⟨declared, found, idEq, update⟩ := addFormal_update added
    refine lawful.edit found update (.withFormal _ _) rfl ?_
    exact (lawful.numbered _ declared found).withFormal (addFormal_closed added found) idEq
  | edit modified develops formalsEq companionEq =>
    obtain ⟨declared, found, update⟩ := modify_update modified
    refine lawful.edit found update (develops declared) (companionEq declared) ?_
    have numbered := lawful.numbered _ declared found
    rw [Feature.Numbered, formalsEq]
    exact numbered
  | typeRoot root => exact { lawful with }

end FeatureTable

end FeatureTypes

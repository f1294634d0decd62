import FeatureTypes.Proofs.Feature.Lawful
import FeatureTypes.Proofs.Feature.Resolution
import FeatureTypes.Proofs.Store.Denotes

/-!
# Tables that declarations build

A feature table is built by declaring features and by adding formals, parents, summands and
companions to them, one at a time.
-/

namespace FeatureTypes

variable {table table' : FeatureTable} {types : TypeStore}

/-! ## Types of declared features -/

/-- The feature is the universe, or declared directly in it. -/
def Feature.inUniverse (declared : Feature) : Prop :=
  declared.outer = none ∨ declared.outer = some .universe

instance (declared : Feature) : Decidable declared.inUniverse :=
  inferInstanceAs (Decidable (_ ∨ _))

/-- The type is the feature applied to the arguments, and is inside no other type if the
feature is declared in the universe. -/
structure FeatureTable.Spells (types : TypeStore) (table : FeatureTable) (id : FeatureId)
    (args : List TypeId) (ty : TypeId) : Prop where
  held : types.Holds ty
  layer : ∃ declared outer, table.get id = .ok declared ∧
    types.node ty = .applied id args outer declared.isRef false ∧
      (declared.inUniverse → outer = none)

theorem FeatureTable.Spells.of_extends {types' : TypeStore} {id : FeatureId} {args : List TypeId}
    {ty : TypeId} (spells : table.Spells types id args ty) (extension : types.Extends types') :
    table.Spells types' id args ty := by
  obtain ⟨held, declared, outer, found, node, outermost⟩ := spells
  exact ⟨extension.holds held, declared, outer, found, (extension.node_eq held).trans node,
    outermost⟩

namespace FeatureTable

/-- A type that a feature had from inside at some time: the feature applied to declared
formals, within types of the same kind. -/
inductive SelfTyped (table : FeatureTable) : Ty → Prop
  | intro {feature : FeatureId} {formals : List FormalId} {outer : Option Ty} {isRef : Bool}
      (declares : ∀ formal ∈ formals, table.DeclaresFormal formal)
      (inside : ∀ around, outer = some around → SelfTyped table around) :
      SelfTyped table (.applied feature (formals.map (Ty.formal · false)) outer isRef false)

theorem SelfTyped.of_develops {later : FeatureTable} {ty : Ty} (selfTyped : table.SelfTyped ty)
    (develops : table.Develops later) : later.SelfTyped ty := by
  induction selfTyped with
  | intro declares _ ih =>
    refine .intro (fun formal member => ?_) ih
    obtain ⟨declared, found, bound⟩ := declares formal member
    obtain ⟨declared', found', kept⟩ := develops formal.feature declared found
    have present := kept.formals_kept formal.index _ (List.getElem?_eq_getElem bound)
    exact ⟨declared', found', (List.getElem?_eq_some_iff.mp present).choose⟩

def Placed (table : FeatureTable) (ty : Ty) : Prop :=
  ∀ feature args around isRef isThis, ty = .applied feature args (some around) isRef isThis →
    table.SelfTyped around

theorem Spells.of_develops {id : FeatureId} {args : List TypeId} {ty : TypeId}
    (spells : table.Spells types id args ty) (develops : table.Develops table') :
    table'.Spells types id args ty := by
  obtain ⟨held, declared, outer, found, node, outermost⟩ := spells
  obtain ⟨declared', found', kept⟩ := develops id declared found
  obtain ⟨_, _, outerEq, refEq, _⟩ := Feature.seat_eq_iff.mp kept.seat_eq
  refine ⟨held, declared', outer, found', refEq ▸ node, ?_⟩
  rw [Feature.inUniverse, outerEq]
  exact outermost

/-- A feature that the table declares and that is no companion. -/
def DeclaresPlain (table : FeatureTable) (id : FeatureId) : Prop :=
  ∃ declared, table.get id = .ok declared ∧ declared.isCompanion = false

theorem DeclaresPlain.of_develops {id : FeatureId} (plain : table.DeclaresPlain id)
    (develops : table.Develops table') : table'.DeclaresPlain id := by
  obtain ⟨declared, found, notCompanion⟩ := plain
  obtain ⟨declared', found', kept⟩ := develops id declared found
  refine ⟨declared', found', ?_⟩
  rw [Feature.isCompanion, (Feature.seat_eq_iff.mp kept.seat_eq).2.2.2.2]
  exact notCompanion

/-! ## Building -/

/-- The tables that declarations in terms of the given types build. -/
inductive Built (types : TypeStore) : FeatureTable → Prop
  | initial : Built types .initial
  | feature {table table' : FeatureTable} {id outer : FeatureId} {name : String} {isRef : Bool}
      {origin : Option FeatureId} (built : Built types table)
      (plain : ∀ owner, origin = some owner → table.DeclaresPlain owner)
      (declared : table.declare name outer isRef origin = .ok (id, table')) :
      Built types table'
  | formal {table table' : FeatureTable} {id : FormalId} {owner : FeatureId} {name : String}
      {constraint : TypeId} {isOpen : Bool} {span : Span} (built : Built types table)
      (added : table.addFormal owner name constraint isOpen span = .ok (id, table')) :
      Built types table'
  | parent {table table' : FeatureTable} {heir ancestor : FeatureId} {actuals : List TypeId}
      {ty : TypeId} (built : Built types table) (spells : table.Spells types ancestor actuals ty)
      (placed : table.Placed (types.tree ty))
      (modified : table.modify heir (fun feature =>
        { feature with parents := feature.parents ++ [⟨ancestor, actuals, ty⟩] }) = .ok table') :
      Built types table'
  | summands {table table' : FeatureTable} {id : FeatureId} {summands : List TypeId}
      (built : Built types table)
      (modified : table.modify id (fun feature => { feature with summands := some summands }) =
        .ok table') :
      Built types table'
  | companion {table table' : FeatureTable} {origin companion : FeatureId}
      (built : Built types table)
      (modified : table.modify origin
        (fun feature => { feature with companion := some companion }) = .ok table') :
      Built types table'
  | typeRoot {table : FeatureTable} (built : Built types table) (root : FeatureId) :
      Built types { table with typeRoot := some root }

theorem Built.of_extends {types' : TypeStore} (built : table.Built types)
    (extension : types.Extends types') (coherent : types.Coherent) (coherent' : types'.Coherent) :
    table.Built types' := by
  induction built with
  | initial => exact .initial
  | feature _ plain declared ih => exact .feature ih plain declared
  | formal _ added ih => exact .formal ih added
  | parent _ spells placed modified ih =>
    refine .parent ih (spells.of_extends extension) ?_ modified
    rwa [TypeStore.tree_eq_of_extends coherent coherent' extension spells.held]
  | summands _ modified ih => exact .summands ih modified
  | companion _ modified ih => exact .companion ih modified
  | typeRoot _ root ih => exact .typeRoot ih root

/-! ## Tables in order -/

/-- The formals of the feature are numbered, it is the companion of a feature that is none, and
the type of a parent is the ancestor applied to the actuals. -/
structure OrderlyAt (types : TypeStore) (table : FeatureTable) (id : FeatureId)
    (declared : Feature) : Prop where
  numbered : declared.Numbered id
  origin_plain : ∀ origin, declared.origin = some origin → table.DeclaresPlain origin
  parent_spelled : ∀ parent ∈ declared.parents,
    table.Spells types parent.ancestor parent.actuals parent.ty
  parent_placed : ∀ parent ∈ declared.parents, table.Placed (types.tree parent.ty)

/-- What is in order about a feature stays so while the table develops. -/
theorem OrderlyAt.of_develops {id : FeatureId} {declared : Feature}
    (orderly : table.OrderlyAt types id declared) (develops : table.Develops table') :
    table'.OrderlyAt types id declared where
  numbered := orderly.numbered
  origin_plain origin isOrigin := (orderly.origin_plain origin isOrigin).of_develops develops
  parent_spelled parent member := (orderly.parent_spelled parent member).of_develops develops
  parent_placed parent member feature args around isRef isThis treeEq :=
    (orderly.parent_placed parent member feature args around isRef isThis treeEq).of_develops
      develops

/-- The features lie within one another, and the universe is named by itself. -/
structure Seated (table : FeatureTable) : Prop extends table.Nested where
  universe_named : ∀ declared, table.get .universe = .ok declared →
    declared.qualifiedName = declared.name

theorem Seated.outermost_named (seated : table.Seated) {id : FeatureId} {declared : Feature}
    (found : table.get id = .ok declared) (outermost : declared.outer = none) :
    declared.qualifiedName = declared.name := by
  obtain rfl := (seated.outer_eq_none_iff id declared found).mp outermost
  exact seated.universe_named declared found

/-- What holds of every table that declarations build. -/
structure Orderly (types : TypeStore) (table : FeatureTable) : Prop extends table.Seated where
  each : ∀ id declared, table.get id = .ok declared → table.OrderlyAt types id declared

namespace Orderly

theorem update {id : FeatureId} {declared : Feature} (orderly : table.Orderly types)
    (update : table.Update table' id declared) (develops : table.Develops table')
    (nested : table'.Nested) (new : table.OrderlyAt types id declared) : table'.Orderly types := by
  refine ⟨⟨nested, fun root' found' => ?_⟩, fun other after found => ?_⟩
  · obtain ⟨root, found⟩ := orderly.universe_declared
    obtain ⟨_, foundLater, kept⟩ := develops _ root found
    obtain rfl := Except.ok.inj (foundLater.symm.trans found')
    obtain ⟨nameEq, qualifiedEq, _⟩ := Feature.seat_eq_iff.mp kept.seat_eq
    rw [nameEq, qualifiedEq, orderly.universe_named root found]
  · by_cases isUpdated : other = id
    · subst isUpdated
      obtain rfl := Except.ok.inj (update.get_self.symm.trans found)
      exact new.of_develops develops
    · rw [update.get_other other isUpdated] at found
      exact (orderly.each other after found).of_develops develops

theorem edit {id : FeatureId} {before after : Feature} (orderly : table.Orderly types)
    (found : table.get id = .ok before) (update : table.Update table' id after)
    (develops : before.Develops after) (numbered : before.Numbered id → after.Numbered id)
    (parents : ∀ parent ∈ after.parents, parent ∈ before.parents ∨
      table.Spells types parent.ancestor parent.actuals parent.ty ∧
        table.Placed (types.tree parent.ty)) : table'.Orderly types := by
  have old := orderly.each id before found
  refine orderly.update update (update.develops found develops)
    (orderly.toNested.edit found update develops) ⟨numbered old.numbered, ?_, ?_, ?_⟩
  · rw [(Feature.seat_eq_iff.mp develops.seat_eq).2.2.2.2]
    exact old.origin_plain
  · exact fun parent member =>
      (parents parent member).elim (old.parent_spelled parent) fun new => new.1
  · exact fun parent member =>
      (parents parent member).elim (old.parent_placed parent) fun new => new.2

end Orderly

/-- By induction on the declarations that built the table. -/
theorem Built.orderly (built : table.Built types) : table.Orderly types := by
  induction built with
  | initial =>
    have only : ∀ id declared, FeatureTable.initial.get id = .ok declared →
        declared.qualifiedName = declared.name ∧ declared.origin = none ∧ declared.parents = [] :=
      forall_declared (by decide)
    refine ⟨⟨.initial, fun declared found => (only _ declared found).1⟩,
      fun id declared found => ?_⟩
    obtain ⟨_, noOrigin, noParents⟩ := only id declared found
    refine ⟨initial_lawful.numbered id declared found, ?_, ?_, ?_⟩
    · simp [noOrigin]
    · simp [noParents]
    · simp [noParents]
  | feature _ plain declared orderly =>
    obtain ⟨rfl, _, around, names, update⟩ := orderly.declare_names declared
    refine orderly.update update update.extended.develops
      (orderly.toNested.extended update.extended ⟨_, rfl, around, names⟩) ?_
    exact ⟨fun _ _ present => (by cases present), plain, by simp, by simp⟩
  | formal _ added orderly =>
    obtain ⟨before, found, idEq, update⟩ := addFormal_update added
    exact orderly.edit found update (.withFormal _ _)
      (fun numbered => numbered.withFormal (addFormal_closed added found) idEq) fun _ => Or.inl
  | parent _ spells placed modified orderly =>
    obtain ⟨before, found, update⟩ := modify_update modified
    refine orderly.edit found update (.withParent _ _) id ?_
    intro parent member
    refine (List.mem_append.mp member).imp_right fun new => ?_
    rw [List.mem_singleton.mp new]
    exact ⟨spells, placed⟩
  | summands _ modified orderly =>
    obtain ⟨before, found, update⟩ := modify_update modified
    exact orderly.edit found update (.of_eq rfl rfl rfl) id fun _ => Or.inl
  | companion _ modified orderly =>
    obtain ⟨before, found, update⟩ := modify_update modified
    exact orderly.edit found update (.of_eq rfl rfl rfl) id fun _ => Or.inl
  | @typeRoot table _ root orderly =>
    have develops : table.Develops { table with typeRoot := some root } := .refl table
    exact ⟨⟨⟨orderly.universe_declared, orderly.outer_eq_none_iff, orderly.inside⟩,
      orderly.universe_named⟩, fun id declared found =>
        (orderly.each id declared found).of_develops develops⟩

end FeatureTable

end FeatureTypes

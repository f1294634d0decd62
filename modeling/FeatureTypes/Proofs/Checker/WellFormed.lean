import FeatureTypes.Checker.Basic
import FeatureTypes.Proofs.Feature.Growth
import FeatureTypes.Proofs.Store.Canonical

/-!
# Well-formed checkers
-/

namespace FeatureTypes

/-! ## Declarations -/

/-- The types in the declaration of the feature `id` are stored, and its formals
are numbered. -/
structure Feature.WellFormed (types : TypeStore) (id : FeatureId) (declared : Feature) :
    Prop where
  formal_id : ∀ (position : Nat) (formal : Formal), declared.formals[position]? = some formal →
    formal.id = ⟨id, position⟩
  constraint_held : ∀ formal ∈ declared.formals, types.Holds formal.constraint
  actuals_held : ∀ parent ∈ declared.parents, ∀ actual ∈ parent.actuals, types.Holds actual
  ty_held : ∀ parent ∈ declared.parents, types.Holds parent.ty
  summands_held : ∀ summands, declared.summands = some summands →
    ∀ summand ∈ summands, types.Holds summand

namespace Feature.WellFormed

variable {types types' : TypeStore} {id : FeatureId} {declared : Feature}

theorem of_extends (wellFormed : declared.WellFormed types id) (extension : types.Extends types') :
    declared.WellFormed types' id where
  formal_id := wellFormed.formal_id
  constraint_held formal member := extension.holds (wellFormed.constraint_held formal member)
  actuals_held parent member actual actualMember :=
    extension.holds (wellFormed.actuals_held parent member actual actualMember)
  ty_held parent member := extension.holds (wellFormed.ty_held parent member)
  summands_held summands isChoice summand member :=
    extension.holds (wellFormed.summands_held summands isChoice summand member)

theorem new (name qualifiedName : String) (outer origin : Option FeatureId) (isRef : Bool) :
    Feature.WellFormed types id { name, qualifiedName, outer, isRef, origin } where
  formal_id position formal present := by simp at present
  constraint_held formal member := by cases member
  actuals_held parent member := by cases member
  ty_held parent member := by cases member
  summands_held summands isChoice := by cases isChoice

variable (wellFormed : declared.WellFormed types id)

include wellFormed

theorem withFormal {formal : Formal} (numbered : formal.id = ⟨id, declared.formals.length⟩)
    (held : types.Holds formal.constraint) :
    Feature.WellFormed types id { declared with formals := declared.formals ++ [formal] } := by
  refine { wellFormed with formal_id := ?_, constraint_held := ?_ }
  · intro position formal' present
    rw [List.getElem?_append] at present
    split at present
    · exact wellFormed.formal_id position formal' present
    · rw [List.getElem?_singleton] at present
      split at present
      · obtain rfl := Option.some.inj present
        rw [numbered, show position = declared.formals.length by omega]
      · cases present
  · intro formal' member
    rcases List.mem_append.mp member with old | new
    · exact wellFormed.constraint_held formal' old
    · obtain rfl := List.mem_singleton.mp new
      exact held

theorem withParent {parent : Parent} (actualsHeld : ∀ actual ∈ parent.actuals, types.Holds actual)
    (tyHeld : types.Holds parent.ty) :
    Feature.WellFormed types id { declared with parents := declared.parents ++ [parent] } := by
  refine { wellFormed with actuals_held := ?_, ty_held := ?_ } <;> intro parent' member
  · rcases List.mem_append.mp member with old | new
    · exact wellFormed.actuals_held parent' old
    · obtain rfl := List.mem_singleton.mp new
      exact actualsHeld
  · rcases List.mem_append.mp member with old | new
    · exact wellFormed.ty_held parent' old
    · obtain rfl := List.mem_singleton.mp new
      exact tyHeld

theorem withSummands {summands : List TypeId} (held : ∀ summand ∈ summands, types.Holds summand) :
    Feature.WellFormed types id { declared with summands := some summands } :=
  { wellFormed with summands_held := fun _ isChoice => Option.some.inj isChoice ▸ held }

theorem withCompanion (companion : Option FeatureId) :
    Feature.WellFormed types id { declared with companion } :=
  { wellFormed with }

end Feature.WellFormed

/-- Every feature of the table is declared in terms of stored types. -/
def FeatureTable.WellFormed (types : TypeStore) (table : FeatureTable) : Prop :=
  ∀ id declared, table.get id = .ok declared → declared.WellFormed types id

namespace FeatureTable.WellFormed

variable {types types' : TypeStore} {table table' : FeatureTable}

theorem of_extends (wellFormed : table.WellFormed types) (extension : types.Extends types') :
    table.WellFormed types' :=
  fun id declared found => (wellFormed id declared found).of_extends extension

/-- Only the changed feature has to be looked at. -/
theorem update {id : FeatureId} {declared : Feature} (wellFormed : table.WellFormed types)
    (updated : table.Update table' id declared)
    (declaredWellFormed : declared.WellFormed types id) : table'.WellFormed types := by
  intro other declared' found
  by_cases isUpdated : other = id
  · obtain rfl := isUpdated
    obtain rfl : declared = declared' := Except.ok.inj (updated.get_self.symm.trans found)
    exact declaredWellFormed
  · rw [updated.get_other other isUpdated] at found
    exact wellFormed other declared' found

end FeatureTable.WellFormed

theorem FeatureTable.initial_wellFormed (types : TypeStore) :
    FeatureTable.initial.WellFormed types := by
  intro id declared found
  rw [FeatureTable.get_eq_ok_iff] at found
  simp only [initial, List.getElem?_toArray, List.getElem?_singleton] at found
  split at found
  · obtain rfl := Option.some.inj found
    exact Feature.WellFormed.new _ _ none none _
  · cases found

/-- No formal stands for any number of actuals. -/
def FeatureTable.FormalsClosed (table : FeatureTable) : Prop :=
  ∀ id declared, table.get id = .ok declared →
    ∀ formal ∈ declared.formals, formal.isOpen = false

namespace Checker

/-! ## Checkers -/

/-- The invariant of the types and features of a checker. -/
structure WellFormed (checker : Checker) : Prop where
  types_canonical : checker.types.Canonical
  features_wellFormed : checker.features.WellFormed checker.types

/-- A checker without declarations is well-formed. -/
theorem initial_wellFormed (options : Options) (journal : Journal) :
    ({ options, journal } : Checker).WellFormed :=
  ⟨TypeStore.initial_canonical, FeatureTable.initial_wellFormed _⟩

/-- The later checker works the same way, and knows all that the earlier one
knows. -/
structure Grows (checker later : Checker) : Prop where
  types_extend : checker.types.Extends later.types
  features_grow : checker.features.Grows later.features
  options_eq : later.options = checker.options
  recording_eq : later.journal.recording = checker.journal.recording
  reported : 0 < checker.reports.size → 0 < later.reports.size

namespace Grows

theorem refl (checker : Checker) : checker.Grows checker :=
  ⟨.refl _, .refl _, rfl, rfl, id⟩

theorem trans {first second third : Checker} (lower : first.Grows second)
    (upper : second.Grows third) : first.Grows third :=
  ⟨lower.types_extend.trans upper.types_extend, lower.features_grow.trans upper.features_grow,
    upper.options_eq.trans lower.options_eq, upper.recording_eq.trans lower.recording_eq,
    fun any => upper.reported (lower.reported any)⟩

end Grows

/-- All remembered results are stored types. -/
structure MemosStored (checker : Checker) : Prop where
  byOwner_held : ∀ (key : SubstitutionKey) (result : TypeId),
    checker.byOwner.entries[key]? = some result → checker.types.Holds result
  viaType_held : ∀ (key : ViewKey) (result : TypeId),
    checker.viaType.entries[key]? = some result → checker.types.Holds result

/-- What every operation preserves: the checker is well-formed, and any remembered
results are stored. -/
structure Sound (checker : Checker) : Prop extends checker.WellFormed where
  memos_stored : checker.options.memoize = true → checker.MemosStored

theorem WellFormed.sound_of_off {checker : Checker} (wellFormed : checker.WellFormed)
    (off : checker.options.memoize = false) : checker.Sound :=
  { wellFormed with memos_stored := fun on => absurd (off.symm.trans on) Bool.false_ne_true }

end Checker

end FeatureTypes

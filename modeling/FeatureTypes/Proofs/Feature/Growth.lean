import FeatureTypes.Feature.Ancestry

/-!
# Growing feature tables

Creating companions adds features to a table and links features to their companions, but
leaves every earlier feature as it was otherwise.
-/

namespace FeatureTypes

variable {table table' : FeatureTable} {name : String}

theorem except_bind_eq_ok {α β : Type} {first : Except Failure α} {next : α → Except Failure β}
    {result : β} (succeeded : (first >>= next) = .ok result) :
    ∃ value, first = .ok value ∧ next value = .ok result := by
  cases first with
  | error failure => cases succeeded
  | ok value => exact ⟨value, rfl, succeeded⟩

namespace FeatureTable

theorem get_eq_ok_iff {id : FeatureId} {declared : Feature} :
    table.get id = .ok declared ↔ table.features[id.index]? = some declared := by
  unfold get
  cases table.features[id.index]? <;> simp

theorem index_lt_size {id : FeatureId} {declared : Feature} (found : table.get id = .ok declared) :
    id.index < table.size :=
  (Array.getElem?_eq_some_iff.mp (get_eq_ok_iff.mp found)).choose

/-- To go through the declared features is to go through the table. -/
theorem forall_declared {property : FeatureId → Feature → Prop}
    (holds : ∀ position : Fin table.features.size, property ⟨position⟩ (table.features[position])) :
    ∀ id declared, table.get id = .ok declared → property id declared := by
  intro id declared found
  obtain ⟨bound, rfl⟩ := Array.getElem?_eq_some_iff.mp (get_eq_ok_iff.mp found)
  exact holds ⟨id.index, bound⟩

/-! ## Updates -/

/-- The tables differ only in the feature `id`, which is `declared` afterwards. -/
structure Update (table table' : FeatureTable) (id : FeatureId) (declared : Feature) : Prop where
  typeRoot_eq : table'.typeRoot = table.typeRoot
  get_self : table'.get id = .ok declared
  get_other : ∀ other, other ≠ id → table'.get other = table.get other

theorem index_ne_of_ne {id other : FeatureId} (different : other ≠ id) :
    other.index ≠ id.index := by
  obtain ⟨position⟩ := id
  obtain ⟨position'⟩ := other
  simpa using different

/-- An edit concerns one feature. -/
theorem modify_update {id : FeatureId} {edit : Feature → Feature}
    (modified : table.modify id edit = .ok table') :
    ∃ declared, table.get id = .ok declared ∧ Update table table' id (edit declared) := by
  obtain ⟨declared, found, result⟩ := except_bind_eq_ok modified
  obtain rfl : _ = table' := Except.ok.inj result
  have bound := index_lt_size found
  refine ⟨declared, found, rfl, ?_, ?_⟩
  · rw [get_eq_ok_iff]
    exact Array.getElem?_setIfInBounds_self_of_lt bound
  · intro other different
    simp only [get, Array.getElem?_setIfInBounds_ne (index_ne_of_ne different).symm]

/-- A new feature gets the next number. -/
theorem declare_update {outer id : FeatureId} {isRef : Bool} {origin : Option FeatureId}
    (declared : table.declare name outer isRef origin = .ok (id, table')) :
    id = ⟨table.size⟩ ∧ ∃ qualifiedName, table.qualify outer name = .ok qualifiedName ∧
      Update table table' id { name, qualifiedName, outer := some outer, isRef, origin } := by
  obtain ⟨qualifiedName, qualified, result⟩ := except_bind_eq_ok declared
  obtain ⟨rfl, rfl⟩ := Prod.mk.inj (Except.ok.inj result)
  refine ⟨rfl, qualifiedName, qualified, rfl, ?_, ?_⟩
  · rw [get_eq_ok_iff]
    exact Array.getElem?_push_size
  · intro other different
    have differentIndex : other.index ≠ table.features.size := index_ne_of_ne different
    simp only [get, Array.getElem?_push, if_neg differentIndex]

theorem addFormal_update {feature : FeatureId} {constraint : TypeId} {isOpen : Bool} {span : Span}
    {id : FormalId}
    (added : table.addFormal feature name constraint isOpen span = .ok (id, table')) :
    ∃ declared, table.get feature = .ok declared ∧ id = ⟨feature, declared.formals.length⟩ ∧
      Update table table' feature { declared with
        formals := declared.formals ++ [{ id, name, isOpen, constraint, span }] } := by
  obtain ⟨declared, found, result⟩ := except_bind_eq_ok added
  cases open? : declared.endsOpen with
  | true =>
    rw [open?] at result
    cases result
  | false =>
    rw [open?] at result
    obtain ⟨modified, modification, result⟩ := except_bind_eq_ok result
    obtain ⟨rfl, rfl⟩ := Prod.mk.inj (Except.ok.inj result)
    obtain ⟨declared', found', update⟩ := modify_update modification
    obtain rfl : declared = declared' := Except.ok.inj (found.symm.trans found')
    exact ⟨declared, found, rfl, update⟩

/-! ## Growth -/

/-- Every feature of the smaller table is in the larger one, unchanged up to its
companion. -/
structure Grows (table larger : FeatureTable) : Prop where
  typeRoot_eq : larger.typeRoot = table.typeRoot
  get_eq : ∀ id declared, table.get id = .ok declared →
    ∃ companion, larger.get id = .ok { declared with companion }

namespace Grows

theorem refl (table : FeatureTable) : table.Grows table :=
  ⟨rfl, fun _ declared found => ⟨declared.companion, found⟩⟩

theorem trans {first second third : FeatureTable} (lower : first.Grows second)
    (upper : second.Grows third) : first.Grows third := by
  refine ⟨upper.typeRoot_eq.trans lower.typeRoot_eq, ?_⟩
  intro id declared found
  obtain ⟨companion, foundSecond⟩ := lower.get_eq id declared found
  obtain ⟨companion', foundThird⟩ := upper.get_eq id { declared with companion } foundSecond
  exact ⟨companion', foundThird⟩

variable {table larger : FeatureTable}

variable (growth : table.Grows larger)

include growth

theorem size_le : table.size ≤ larger.size := by
  rcases Nat.lt_or_ge larger.size table.size with smaller | ordered
  · have found : table.get ⟨larger.size⟩ = .ok table.features[larger.size] :=
      get_eq_ok_iff.mpr (Array.getElem?_eq_getElem smaller)
    obtain ⟨companion, foundLarger⟩ := growth.get_eq _ _ found
    exact absurd (index_lt_size foundLarger) (Nat.lt_irrefl larger.size)
  · exact ordered

theorem formal?_eq {id : FormalId} {formal : Option Formal}
    (found : table.formal? id = .ok formal) : larger.formal? id = .ok formal := by
  obtain ⟨declared, present, result⟩ := except_bind_eq_ok found
  obtain ⟨companion, presentLarger⟩ := growth.get_eq _ _ present
  simp only [formal?, presentLarger]
  exact result

theorem formalName_eq {id : FormalId} (found : table.formalName id = .ok name) :
    larger.formalName id = .ok name := by
  obtain ⟨formal, present, result⟩ := except_bind_eq_ok found
  simp only [formalName, growth.formal?_eq present]
  exact result

/-! ### Ancestors -/

theorem parents_prefix :
    table.features.toList.map Feature.parents <+: larger.features.toList.map Feature.parents := by
  rw [List.prefix_iff_getElem?]
  intro position bound
  rw [List.length_map, Array.length_toList] at bound
  have found : table.get ⟨position⟩ = .ok table.features[position] :=
    get_eq_ok_iff.mpr (Array.getElem?_eq_getElem bound)
  obtain ⟨companion, foundLarger⟩ := growth.get_eq _ _ found
  rw [get_eq_ok_iff] at foundLarger
  simp [foundLarger]

theorem parentCount_le : table.parentCount ≤ larger.parentCount := by
  unfold parentCount
  rw [List.flatMap_def, List.flatMap_def]
  obtain ⟨others, appended⟩ := growth.parents_prefix
  rw [← appended, List.flatten_append, List.length_append]
  exact Nat.le_add_right _ _

theorem hasAncestorWithin_eq {ancestor : FeatureId} {budget budget' : Nat}
    {pending seen : List FeatureId} {answer : Bool} (enough : budget ≤ budget')
    (found : table.hasAncestorWithin ancestor budget pending seen = .ok answer) :
    larger.hasAncestorWithin ancestor budget' pending seen = .ok answer := by
  induction budget generalizing budget' pending seen with
  | zero =>
    cases pending with
    | nil => simpa only [hasAncestorWithin] using found
    | cons current rest => simp [hasAncestorWithin] at found
  | succ budget ih =>
    obtain ⟨budget', rfl⟩ : ∃ smaller, budget' = smaller + 1 := ⟨budget' - 1, by omega⟩
    have enough : budget ≤ budget' := by omega
    cases pending with
    | nil => simpa only [hasAncestorWithin] using found
    | cons current rest =>
      simp only [hasAncestorWithin] at found ⊢
      by_cases visited : current ∈ seen
      · rw [if_pos visited] at found ⊢
        exact ih enough found
      · rw [if_neg visited] at found ⊢
        obtain ⟨declared, present, result⟩ := except_bind_eq_ok found
        obtain ⟨companion, presentLarger⟩ := growth.get_eq _ _ present
        rw [presentLarger]
        change (if ancestor ∈ declared.parents.map Parent.ancestor then
          Except.ok true else _) = _ at result
        change (if ancestor ∈ declared.parents.map Parent.ancestor then
          Except.ok true else _) = _
        split at result
        · rw [if_pos ‹_›]
          exact result
        · rw [if_neg ‹_›]
          exact ih enough result

/-- Answers about ancestors stay the same. -/
theorem inheritsFrom_eq {heir ancestor : FeatureId} {answer : Bool}
    (found : table.inheritsFrom heir ancestor = .ok answer) :
    larger.inheritsFrom heir ancestor = .ok answer := by
  unfold inheritsFrom at found ⊢
  split at found
  · rw [if_pos ‹_›]
    exact found
  · rw [if_neg ‹_›]
    exact growth.hasAncestorWithin_eq (Nat.succ_le_succ growth.parentCount_le) found

end Grows

/-! ## Development -/

end FeatureTable

namespace Feature

/-- What is settled when a feature is declared: its names, where it lies, whether it is a
reference and whose companion it is. -/
def seat (declared : Feature) : String × String × Option FeatureId × Bool × Option FeatureId :=
  (declared.name, declared.qualifiedName, declared.outer, declared.isRef, declared.origin)

theorem seat_eq_iff {declared later : Feature} : later.seat = declared.seat ↔
    later.name = declared.name ∧ later.qualifiedName = declared.qualifiedName ∧
      later.outer = declared.outer ∧ later.isRef = declared.isRef ∧
        later.origin = declared.origin := by
  simp only [seat, Prod.mk.injEq]

/-- The feature has kept its seat, its formals and its parents. -/
structure Develops (declared later : Feature) : Prop where
  seat_eq : later.seat = declared.seat
  parents_kept : ∀ parent ∈ declared.parents, parent ∈ later.parents
  formals_kept : ∀ (position : Nat) (formal : Formal), declared.formals[position]? = some formal →
    later.formals[position]? = some formal

namespace Develops

theorem of_eq {declared later : Feature} (seatEq : later.seat = declared.seat)
    (parentsEq : later.parents = declared.parents) (formalsEq : later.formals = declared.formals) :
    declared.Develops later :=
  ⟨seatEq, fun _ member => parentsEq ▸ member, fun _ _ present => formalsEq ▸ present⟩

theorem refl (declared : Feature) : declared.Develops declared :=
  .of_eq rfl rfl rfl

theorem trans {first second third : Feature} (lower : first.Develops second)
    (upper : second.Develops third) : first.Develops third where
  seat_eq := upper.seat_eq.trans lower.seat_eq
  parents_kept parent member := upper.parents_kept parent (lower.parents_kept parent member)
  formals_kept position formal present :=
    upper.formals_kept position formal (lower.formals_kept position formal present)

theorem withFormal (declared : Feature) (formal : Formal) :
    declared.Develops { declared with formals := declared.formals ++ [formal] } := by
  refine ⟨rfl, fun _ member => member, fun position formal present => ?_⟩
  have bound := (List.getElem?_eq_some_iff.mp present).choose
  rw [List.getElem?_append_left bound]
  exact present

theorem withParent (declared : Feature) (parent : Parent) :
    declared.Develops { declared with parents := declared.parents ++ [parent] } :=
  ⟨rfl, fun _ member => List.mem_append_left _ member, fun _ _ present => present⟩

end Develops

end Feature

namespace FeatureTable

/-- Every feature is still there, with its formals and parents and possibly more. -/
def Develops (table later : FeatureTable) : Prop :=
  ∀ id declared, table.get id = .ok declared →
    ∃ declared', later.get id = .ok declared' ∧ declared.Develops declared'

variable {table later : FeatureTable}

theorem Develops.refl (table : FeatureTable) : table.Develops table :=
  fun _ declared found => ⟨declared, found, .refl declared⟩

theorem Develops.trans {first second third : FeatureTable} (lower : first.Develops second)
    (upper : second.Develops third) : first.Develops third := by
  intro id declared found
  obtain ⟨declared', found', develops⟩ := lower id declared found
  obtain ⟨declared'', found'', develops'⟩ := upper id declared' found'
  exact ⟨declared'', found'', develops.trans develops'⟩

theorem Grows.develops (growth : table.Grows later) : table.Develops later := by
  intro id declared found
  obtain ⟨companion, foundLater⟩ := growth.get_eq id declared found
  exact ⟨_, foundLater, .of_eq rfl rfl rfl⟩

theorem Develops.formal?_eq (develops : table.Develops later) {id : FormalId} {formal : Formal}
    (present : table.formal? id = .ok (some formal)) : later.formal? id = .ok (some formal) := by
  obtain ⟨declared, found, result⟩ := except_bind_eq_ok present
  obtain ⟨declared', found', kept⟩ := develops id.feature declared found
  have still := kept.formals_kept id.index formal (Except.ok.inj result)
  simp only [formal?, found']
  exact congrArg Except.ok still

/-- The table develops if the changed feature does. -/
theorem Update.develops {id : FeatureId} {before after : Feature}
    (found : table.get id = .ok before) (update : table.Update later id after)
    (develops : before.Develops after) : table.Develops later := by
  intro other declared foundOther
  by_cases isUpdated : other = id
  · subst isUpdated
    obtain rfl := Except.ok.inj (found.symm.trans foundOther)
    exact ⟨after, update.get_self, develops⟩
  · exact ⟨declared, (update.get_other other isUpdated).trans foundOther, .refl declared⟩

theorem develops_of_addFormal {owner : FeatureId} {constraint : TypeId} {isOpen : Bool}
    {span : Span} {id : FormalId}
    (added : table.addFormal owner name constraint isOpen span = .ok (id, later)) :
    table.Develops later := by
  obtain ⟨declared, found, _, update⟩ := addFormal_update added
  exact update.develops found (.withFormal _ _)

theorem develops_of_modify {id : FeatureId} {edit : Feature → Feature}
    (modified : table.modify id edit = .ok later)
    (develops : ∀ declared : Feature, declared.Develops (edit declared)) :
    table.Develops later := by
  obtain ⟨declared, found, update⟩ := modify_update modified
  exact update.develops found (develops declared)

end FeatureTable

end FeatureTypes

import FeatureTypes.Ty.Store
import Std.Data.TreeMap.Lemmas

/-!
# Canonical stores

A store is canonical if its index and its entries are inverse to each other, every part of a
stored type was stored before it, the stored facts are those of the stored layers, and the
three types without a feature have their fixed numbers.
-/

namespace FeatureTypes

variable {store larger : TypeStore}

/-! ## Keys -/

namespace Node

private theorem index_injective (left right : TypeId) (same : left.index = right.index) :
    left = right := by
  obtain ⟨position⟩ := left
  exact congrArg TypeId.mk same

private theorem toNat_injective {left right : Bool} (same : left.toNat = right.toNat) :
    left = right := by
  cases left <;> cases right <;> simp at same ⊢

private theorem outer_eq_of_code_eq {outer outer' : Option TypeId}
    (same :
      (match outer with | none => 0 | some ty => ty.index + 1) =
        (match outer' with | none => 0 | some ty => ty.index + 1)) : outer = outer' := by
  cases outer with
  | none =>
    cases outer' with
    | none => rfl
    | some ty => simp at same
  | some ty =>
    cases outer' with
    | none => simp at same
    | some ty' =>
      have indexEq : ty.index = ty'.index := by simpa using same
      rw [index_injective ty ty' indexEq]

/-- Different layers have different keys. -/
theorem key_injective : Function.Injective Node.key := by
  intro left right same
  cases left with
  | error => cases right <;> simp [key] at same ⊢
  | void => cases right <;> simp [key] at same ⊢
  | undefined => cases right <;> simp [key] at same ⊢
  | formal id boxed =>
    cases right with
    | formal id' boxed' =>
      obtain ⟨⟨feature⟩, position⟩ := id
      obtain ⟨⟨feature'⟩, position'⟩ := id'
      simp only [key, List.cons.injEq, true_and, and_true] at same
      obtain ⟨featureEq, positionEq, boxedEq⟩ := same
      rw [featureEq, positionEq, toNat_injective boxedEq]
    | _ => simp [key] at same
  | applied feature args outer isRef isThis =>
    cases right with
    | applied feature' args' outer' isRef' isThis' =>
      obtain ⟨position⟩ := feature
      obtain ⟨position'⟩ := feature'
      simp only [key, List.cons.injEq, true_and] at same
      obtain ⟨featureEq, refEq, thisEq, outerEq, argsEq⟩ := same
      have argsEq : args = args' :=
        (List.map_inj_right index_injective).mp argsEq
      rw [featureEq, toNat_injective refEq, toNat_injective thisEq,
        outer_eq_of_code_eq outerEq, argsEq]
    | _ => simp [key] at same

end Node

namespace TypeStore

/-! ## Stored numbers -/

/-- The number `id` was handed out by the store. -/
def Holds (store : TypeStore) (id : TypeId) : Prop :=
  id.index < store.size

instance (store : TypeStore) (id : TypeId) : Decidable (store.Holds id) :=
  inferInstanceAs (Decidable (id.index < store.size))

/-- The larger store agrees with the smaller one on every number that the
smaller one handed out. -/
def Extends (store larger : TypeStore) : Prop :=
  ∀ (position : Nat) (entry : Entry),
    store.entries[position]? = some entry → larger.entries[position]? = some entry

theorem holds_iff_entry {id : TypeId} :
    store.Holds id ↔ ∃ entry, store.entries[id.index]? = some entry := by
  constructor
  · intro held
    exact ⟨store.entries[id.index], Array.getElem?_eq_getElem held⟩
  · rintro ⟨entry, found⟩
    exact (Array.getElem?_eq_some_iff.mp found).choose

theorem node_of_entry {id : TypeId} {entry : Entry}
    (found : store.entries[id.index]? = some entry) : store.node id = entry.node := by
  simp [node, found]

theorem flags_of_entry {id : TypeId} {entry : Entry}
    (found : store.entries[id.index]? = some entry) : store.flags id = entry.flags := by
  simp [flags, found]

namespace Extends

theorem refl (store : TypeStore) : store.Extends store :=
  fun _ _ found => found

theorem trans {first second third : TypeStore} (lower : first.Extends second)
    (upper : second.Extends third) : first.Extends third :=
  fun position entry found => upper position entry (lower position entry found)

theorem holds {id : TypeId} (extension : store.Extends larger) (held : store.Holds id) :
    larger.Holds id := by
  obtain ⟨entry, found⟩ := holds_iff_entry.mp held
  exact holds_iff_entry.mpr ⟨entry, extension _ _ found⟩

theorem node_eq {id : TypeId} (extension : store.Extends larger) (held : store.Holds id) :
    larger.node id = store.node id := by
  obtain ⟨entry, found⟩ := holds_iff_entry.mp held
  rw [node_of_entry found, node_of_entry (extension _ _ found)]

theorem flags_eq {id : TypeId} (extension : store.Extends larger) (held : store.Holds id) :
    larger.flags id = store.flags id := by
  obtain ⟨entry, found⟩ := holds_iff_entry.mp held
  rw [flags_of_entry found, flags_of_entry (extension _ _ found)]

end Extends

/-! ## Canonical stores -/

/-- All parts of a layer are stored. -/
def HoldsParts (store : TypeStore) (layer : Node) : Prop :=
  ∀ child ∈ layer.children, store.Holds child

/-- The index leads exactly to the stored layers, parts come before wholes, and
the stored facts are those of the layers. -/
structure Coherent (store : TypeStore) : Prop where
  index_exact : ∀ (layer : Node) (id : TypeId),
    store.index[layer.key]? = some id ↔ store.Holds id ∧ store.node id = layer
  child_lt : ∀ id, store.Holds id →
    ∀ child ∈ (store.node id).children, child.index < id.index
  flags_exact : ∀ id, store.Holds id → store.flags id = store.flagsOf (store.node id)

/-- The invariant of a store. -/
structure Canonical (store : TypeStore) : Prop extends store.Coherent where
  error_exact : store.Holds .error ∧ store.node .error = .error
  void_exact : store.Holds .void ∧ store.node .void = .void
  undefined_exact : store.Holds .undefined ∧ store.node .undefined = .undefined

namespace Coherent

variable {store : TypeStore}

theorem child_holds (coherent : store.Coherent) {id child : TypeId} (held : store.Holds id)
    (member : child ∈ (store.node id).children) : store.Holds child :=
  Nat.lt_trans (coherent.child_lt id held child member) held

theorem node_injective (coherent : store.Coherent) {left right : TypeId}
    (leftHeld : store.Holds left) (rightHeld : store.Holds right)
    (same : store.node left = store.node right) : left = right := by
  have leftFound := (coherent.index_exact _ _).mpr ⟨leftHeld, same⟩
  have rightFound := (coherent.index_exact _ _).mpr ⟨rightHeld, rfl⟩
  exact Option.some.inj (leftFound.symm.trans rightFound)

end Coherent

/-! ## A new layer -/

/-- The store with a layer added at its end. -/
def push (store : TypeStore) (layer : Node) : TypeStore where
  entries := store.entries.push ⟨layer, store.flagsOf layer⟩
  index := store.index.insert layer.key ⟨store.size⟩

theorem push_extends (store : TypeStore) (layer : Node) : store.Extends (store.push layer) := by
  intro position entry present
  have bound := (Array.getElem?_eq_some_iff.mp present).choose
  simpa [push, Array.getElem?_push, Nat.ne_of_lt bound] using present

private theorem push_last (store : TypeStore) (layer : Node) :
    (store.push layer).entries[store.size]? = some ⟨layer, store.flagsOf layer⟩ := by
  simp [push, size]

private theorem holds_push_last (store : TypeStore) (layer : Node) :
    (store.push layer).Holds ⟨store.size⟩ :=
  holds_iff_entry.mpr ⟨_, push_last store layer⟩

private theorem node_push_last (store : TypeStore) (layer : Node) :
    (store.push layer).node ⟨store.size⟩ = layer :=
  node_of_entry (push_last store layer)

private theorem flags_push_last (store : TypeStore) (layer : Node) :
    (store.push layer).flags ⟨store.size⟩ = store.flagsOf layer :=
  flags_of_entry (push_last store layer)

private theorem holds_of_holds_push {store : TypeStore} {layer : Node} {id : TypeId}
    (held : (store.push layer).Holds id) : store.Holds id ∨ id = ⟨store.size⟩ := by
  obtain ⟨position⟩ := id
  simp only [Holds, size, push, Array.size_push, TypeId.mk.injEq] at held ⊢
  omega

theorem flagsOf_eq_of_extends {layer : Node} (extension : store.Extends larger)
    (held : store.HoldsParts layer) : larger.flagsOf layer = store.flagsOf layer := by
  cases layer with
  | applied feature args outer isRef isThis =>
    have agree : ∀ (children : List TypeId) (flags : Flags),
        (∀ child ∈ children, store.Holds child) →
          children.foldl (fun flags child => flags.merge (larger.flags child)) flags =
            children.foldl (fun flags child => flags.merge (store.flags child)) flags := by
      intro children
      induction children with
      | nil => intros; rfl
      | cons child rest ih =>
        intro flags childrenHeld
        simp only [List.foldl_cons]
        rw [extension.flags_eq (childrenHeld child List.mem_cons_self)]
        exact ih _ fun other member =>
          childrenHeld other (List.mem_cons_of_mem _ member)
    exact agree _ _ held
  | _ => rfl

private theorem push_index_exact {store : TypeStore} {layer : Node} (coherent : store.Coherent)
    (missing : store.index[layer.key]? = none) (other : Node) (id : TypeId) :
    (store.push layer).index[other.key]? = some id ↔
      (store.push layer).Holds id ∧ (store.push layer).node id = other := by
  have extension := push_extends store layer
  have lookup : (store.push layer).index[other.key]? =
      if layer.key = other.key then some ⟨store.size⟩ else store.index[other.key]? := by
    simp [push, Std.TreeMap.getElem?_insert]
  rw [lookup]
  constructor
  · intro found
    split at found
    · rename_i sameKey
      obtain rfl : (⟨store.size⟩ : TypeId) = id := Option.some.inj found
      rw [← Node.key_injective sameKey]
      exact ⟨holds_push_last store layer, node_push_last store layer⟩
    · obtain ⟨held, same⟩ := (coherent.index_exact other id).mp found
      exact ⟨extension.holds held, (extension.node_eq held).trans same⟩
  · rintro ⟨held, same⟩
    rcases holds_of_holds_push held with held | rfl
    · have found : store.index[other.key]? = some id :=
        (coherent.index_exact other id).mpr ⟨held, (extension.node_eq held).symm.trans same⟩
      have different : layer.key ≠ other.key := by
        intro sameKey
        rw [sameKey, found] at missing
        cases missing
      rw [if_neg different, found]
    · rw [node_push_last] at same
      rw [if_pos (congrArg Node.key same)]

/-- A layer may be added if its parts are there and it is not. -/
theorem push_coherent {layer : Node} (coherent : store.Coherent)
    (missing : store.index[layer.key]? = none) (parts : store.HoldsParts layer) :
    (store.push layer).Coherent := by
  have extension := push_extends store layer
  refine ⟨push_index_exact coherent missing, ?_, ?_⟩
  · intro id held child member
    rcases holds_of_holds_push held with held | rfl
    · rw [extension.node_eq held] at member
      exact coherent.child_lt id held child member
    · rw [node_push_last] at member
      exact parts child member
  · intro id held
    rcases holds_of_holds_push held with held | rfl
    · have partsHeld : store.HoldsParts (store.node id) :=
        fun child member => coherent.child_holds held member
      rw [extension.node_eq held, extension.flags_eq held,
        flagsOf_eq_of_extends extension partsHeld]
      exact coherent.flags_exact id held
    · rw [node_push_last, flags_push_last, flagsOf_eq_of_extends extension parts]

/-! ## Interning -/

section Interning

variable {store : TypeStore} {layer : Node}

theorem intern_of_found {id : TypeId} (found : store.index[layer.key]? = some id) :
    store.intern layer = (id, store) := by
  simp [intern, found]

theorem intern_of_missing (missing : store.index[layer.key]? = none) :
    store.intern layer = (⟨store.size⟩, store.push layer) := by
  simp [intern, missing, push]

theorem intern_node (coherent : store.Coherent) {id : TypeId} (held : store.Holds id) :
    store.intern (store.node id) = (id, store) :=
  intern_of_found ((coherent.index_exact _ _).mpr ⟨held, rfl⟩)

theorem intern_extends (store : TypeStore) (layer : Node) :
    store.Extends (store.intern layer).2 := by
  cases found : store.index[layer.key]? with
  | some id =>
    rw [intern_of_found found]
    exact Extends.refl store
  | none =>
    rw [intern_of_missing found]
    exact push_extends store layer

/-- Interning gives a number for the very layer. -/
theorem intern_holds (coherent : store.Coherent) (layer : Node) :
    (store.intern layer).2.Holds (store.intern layer).1 ∧
      (store.intern layer).2.node (store.intern layer).1 = layer := by
  cases found : store.index[layer.key]? with
  | some id =>
    rw [intern_of_found found]
    exact (coherent.index_exact layer id).mp found
  | none =>
    rw [intern_of_missing found]
    exact ⟨holds_push_last store layer, node_push_last store layer⟩

theorem intern_coherent (coherent : store.Coherent) (parts : store.HoldsParts layer) :
    (store.intern layer).2.Coherent := by
  cases found : store.index[layer.key]? with
  | some id =>
    rw [intern_of_found found]
    exact coherent
  | none =>
    rw [intern_of_missing found]
    exact push_coherent coherent found parts

/-- Interning keeps the store canonical. -/
theorem intern_canonical (canonical : store.Canonical) (parts : store.HoldsParts layer) :
    (store.intern layer).2.Canonical := by
  have extension := intern_extends store layer
  have kept : ∀ {id : TypeId} {stored : Node},
      store.Holds id ∧ store.node id = stored →
        (store.intern layer).2.Holds id ∧ (store.intern layer).2.node id = stored :=
    fun old => ⟨extension.holds old.1, (extension.node_eq old.1).trans old.2⟩
  exact ⟨intern_coherent canonical.toCoherent parts, kept canonical.error_exact,
    kept canonical.void_exact, kept canonical.undefined_exact⟩

end Interning

private theorem empty_coherent : ({} : TypeStore).Coherent := by
  have nothing : ∀ id, ¬ ({} : TypeStore).Holds id := by
    intro id held
    exact absurd held (Nat.not_lt_zero id.index)
  refine ⟨?_, fun id held => absurd held (nothing id), fun id held => absurd held (nothing id)⟩
  intro layer id
  constructor
  · intro found
    simp at found
  · rintro ⟨held, _⟩
    exact absurd held (nothing id)

theorem initial_canonical : initial.Canonical := by
  have noParts : ∀ (store : TypeStore) (layer : Node), layer.children = [] →
      store.HoldsParts layer := by
    intro store layer none child member
    rw [none] at member
    cases member
  have errorStep := intern_coherent empty_coherent (noParts _ .error rfl)
  have voidStep := intern_coherent errorStep (noParts _ .void rfl)
  have undefinedStep := intern_coherent voidStep (noParts _ .undefined rfl)
  exact ⟨undefinedStep, by decide, by decide, by decide⟩

end TypeStore

end FeatureTypes

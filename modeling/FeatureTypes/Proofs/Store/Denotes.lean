import FeatureTypes.Proofs.Store.Tree
import FeatureTypes.Proofs.Ty.Replacement
import Mathlib.Data.List.Forall2
import Mathlib.Data.Option.Defs

/-!
# Numbers and the types they stand for

A number stands for the type that it unfolds to.
-/

namespace FeatureTypes

variable {outerId : Option TypeId} {outer : Option Ty} {ids : List TypeId} {tys : List Ty}

/-- The number stands for the type. -/
def TypeStore.Denotes (types : TypeStore) (id : TypeId) (ty : Ty) : Prop :=
  types.Holds id ∧ types.tree id = ty

/-- The layer is that of the type, and its parts stand for those of the type. -/
inductive TypeStore.Reads (types : TypeStore) : Node → Ty → Prop
  | error : Reads types .error .error
  | void : Reads types .void .void
  | undefined : Reads types .undefined .undefined
  | formal (id : FormalId) (boxed : Bool) : Reads types (.formal id boxed) (.formal id boxed)
  | applied (feature : FeatureId) {argIds : List TypeId} {args : List Ty} {outerId : Option TypeId}
      {outer : Option Ty} (isRef isThis : Bool)
      (argsDenote : List.Forall₂ types.Denotes argIds args)
      (outerDenotes : Option.Rel types.Denotes outerId outer) :
      Reads types (.applied feature argIds outerId isRef isThis)
        (.applied feature args outer isRef isThis)

namespace TypeStore.Denotes

variable {types larger : TypeStore} {id : TypeId} {ty ty' : Ty}

theorem of_extends (denotes : types.Denotes id ty) (coherent : types.Coherent)
    (coherent' : larger.Coherent) (extension : types.Extends larger) : larger.Denotes id ty :=
  ⟨extension.holds denotes.1,
    (tree_eq_of_extends coherent coherent' extension denotes.1).trans denotes.2⟩

theorem all_of_extends (denote : List.Forall₂ types.Denotes ids tys) (coherent : types.Coherent)
    (coherent' : larger.Coherent) (extension : types.Extends larger) :
    List.Forall₂ larger.Denotes ids tys :=
  denote.imp fun _ _ denotes => denotes.of_extends coherent coherent' extension

theorem outer_of_extends (denotes : Option.Rel types.Denotes outerId outer)
    (coherent : types.Coherent) (coherent' : larger.Coherent) (extension : types.Extends larger) :
    Option.Rel larger.Denotes outerId outer := by
  cases denotes with
  | none => exact .none
  | some denotes => exact .some (denotes.of_extends coherent coherent' extension)

theorem unique (denotes : types.Denotes id ty) (denotes' : types.Denotes id ty') : ty' = ty :=
  denotes'.2.symm.trans denotes.2

theorem forall₂_iff :
    List.Forall₂ types.Denotes ids tys ↔
      (∀ id ∈ ids, types.Holds id) ∧ ids.map types.tree = tys := by
  induction ids generalizing tys with
  | nil => cases tys <;> simp
  | cons id rest ih =>
    cases tys with
    | nil => simp
    | cons ty tys =>
      simp only [List.forall₂_cons, ih, Denotes, List.forall_mem_cons,
        List.map_cons, List.cons.injEq]
      constructor
      · rintro ⟨⟨held, treeEq⟩, restHeld, restEq⟩
        exact ⟨⟨held, restHeld⟩, treeEq, restEq⟩
      · rintro ⟨⟨held, restHeld⟩, treeEq, restEq⟩
        exact ⟨⟨held, treeEq⟩, restHeld, restEq⟩

theorem option_rel_iff :
    Option.Rel types.Denotes outerId outer ↔
      (∀ id ∈ outerId, types.Holds id) ∧ outerId.map types.tree = outer := by
  cases outerId <;> cases outer <;> simp [Denotes]

theorem args_unique {tys' : List Ty} (denote : List.Forall₂ types.Denotes ids tys)
    (denote' : List.Forall₂ types.Denotes ids tys') : tys' = tys :=
  (forall₂_iff.mp denote').2.symm.trans (forall₂_iff.mp denote).2

theorem layer (denotes : types.Denotes id ty) (coherent : types.Coherent) :
    (types.node id).toTy types.tree = ty := by
  rw [← tree_eq coherent denotes.1, denotes.2]

/-- A number reads like the root of its tree. -/
theorem reads (denotes : types.Denotes id ty) (coherent : types.Coherent) :
    types.Reads (types.node id) ty := by
  rw [← denotes.layer coherent]
  cases node : types.node id with
  | applied feature args outer isRef isThis =>
    have held : ∀ child ∈ args ++ outer.toList, types.Holds child := fun child member =>
      coherent.child_holds denotes.1 (by rwa [node])
    rw [List.forall_mem_append] at held
    exact .applied feature isRef isThis (forall₂_iff.mpr ⟨held.1, rfl⟩) (option_rel_iff.mpr
      ⟨fun around present => held.2 around (Option.mem_toList.mpr present), rfl⟩)
  | formal id boxed => exact .formal id boxed
  | error => exact .error
  | void => exact .void
  | undefined => exact .undefined

theorem node_formal {formal : FormalId} {boxed : Bool}
    (denotes : types.Denotes id (.formal formal boxed)) (coherent : types.Coherent) :
    types.node id = .formal formal boxed := by
  have reads := denotes.reads coherent
  generalize types.node id = layer at reads
  cases reads
  rfl

theorem node_applied {feature : FeatureId} {args : List Ty} {isRef isThis : Bool}
    (denotes : types.Denotes id (.applied feature args outer isRef isThis))
    (coherent : types.Coherent) :
    ∃ argIds outerId, types.node id = .applied feature argIds outerId isRef isThis ∧
      List.Forall₂ types.Denotes argIds args ∧ Option.Rel types.Denotes outerId outer := by
  have reads := denotes.reads coherent
  generalize types.node id = layer at reads
  cases reads with
  | applied _ _ _ argsDenote outerDenotes => exact ⟨_, _, rfl, argsDenote, outerDenotes⟩

/-- Numbers stand for types one to one. -/
theorem inj {id' : TypeId} (denotes : types.Denotes id ty) (denotes' : types.Denotes id' ty')
    (coherent : types.Coherent) : id = id' ↔ ty = ty' := by
  rw [← denotes.2, ← denotes'.2]
  exact (tree_inj coherent denotes.1 denotes'.1).symm

theorem args_inj {ids' : List TypeId} {tys' : List Ty} (denote : List.Forall₂ types.Denotes ids tys)
    (denote' : List.Forall₂ types.Denotes ids' tys') (coherent : types.Coherent) :
    ids = ids' ↔ tys = tys' := by
  induction denote generalizing ids' tys' with
  | nil => cases denote' <;> simp
  | cons denotes _ ih =>
    cases denote' with
    | nil => simp
    | cons denotes' others =>
      rw [List.cons.injEq, List.cons.injEq, denotes.inj denotes' coherent,
        ih others]

theorem outer_inj {outerId' : Option TypeId} {outer' : Option Ty}
    (denotes : Option.Rel types.Denotes outerId outer)
    (denotes' : Option.Rel types.Denotes outerId' outer') (coherent : types.Coherent) :
    outerId = outerId' ↔ outer = outer' := by
  cases denotes with
  | none => cases denotes' <;> simp
  | some denotes =>
    cases denotes' with
    | none => simp
    | some denotes' => rw [Option.some.injEq, Option.some.injEq, denotes.inj denotes' coherent]

theorem map_node_eq_iff {list : List TypeId} {list' : List Ty}
    (denote : List.Forall₂ types.Denotes list list') (coherent : types.Coherent)
    (ids : List FormalId) :
    list.map types.node = ids.map (Node.formal · false) ↔
      list' = ids.map (Ty.formal · false) := by
  induction denote generalizing ids with
  | nil => cases ids <;> simp
  | @cons id ty _ _ denotes _ ih =>
    cases ids with
    | nil => simp
    | cons formal ids =>
      have headIff : types.node id = .formal formal false ↔ ty = .formal formal false := by
        constructor
        · intro node
          rw [← denotes.layer coherent, node, Node.toTy]
        · rintro rfl
          exact denotes.node_formal coherent
      simp only [List.map_cons, List.cons.injEq, headIff, ih ids]

theorem mem_iff {list : List TypeId} {list' : List Ty}
    (denote : List.Forall₂ types.Denotes list list') {id : TypeId} {ty : Ty}
    (denotes : types.Denotes id ty) (coherent : types.Coherent) : id ∈ list ↔ ty ∈ list' := by
  induction denote with
  | nil => simp
  | cons headDenotes _ ih =>
    rw [List.mem_cons, List.mem_cons, denotes.inj headDenotes coherent, ih]

/-! ## Fixed numbers -/

theorem void (canonical : types.Canonical) : types.Denotes .void .void :=
  ⟨canonical.void_exact.1, canonical.tree_void⟩

theorem undefined (canonical : types.Canonical) : types.Denotes .undefined .undefined :=
  ⟨canonical.undefined_exact.1, canonical.tree_undefined⟩

theorem error (canonical : types.Canonical) : types.Denotes .error .error :=
  ⟨canonical.error_exact.1, canonical.tree_error⟩

end TypeStore.Denotes

/-! ## Builders -/

namespace Node

theorem toTy_withRef (unfold : TypeId → Ty) (layer : Node) :
    (layer.withRef true).toTy unfold = (layer.toTy unfold).asRef := by
  cases layer <;> rfl

theorem children_withRef (isRef : Bool) (layer : Node) :
    (layer.withRef isRef).children = layer.children := by
  cases layer <;> rfl

end Node

namespace TypeStore

variable {store : TypeStore} {layer : Node} {id : TypeId} {edit : Node → Node}

theorem holdsParts_applied (feature : FeatureId) {args : List TypeId} {outer : Option TypeId}
    (argsHeld : ∀ arg ∈ args, store.Holds arg) (outerHeld : ∀ around ∈ outer, store.Holds around)
    (isRef isThis : Bool) : store.HoldsParts (.applied feature args outer isRef isThis) :=
  fun child member => (List.mem_append.mp member).elim (argsHeld child) fun inOuter =>
    outerHeld child (Option.mem_toList.mp inOuter)

/-- The new store has more types than the old one, among them `ty` under the given
number.  If the number is not new, the store is not either. -/
structure Makes (store : TypeStore) (ty : Ty) (made : TypeId × TypeStore) : Prop where
  extension : store.Extends made.2
  canonical : made.2.Canonical
  denotes : made.2.Denotes made.1 ty
  eq_of_holds : store.Holds made.1 → made.2 = store

section

variable (canonical : store.Canonical)

include canonical

/-- A stored layer stands for the tree with this root. -/
theorem makes_intern (parts : store.HoldsParts layer) :
    store.Makes (layer.toTy store.tree) (store.intern layer) :=
  ⟨intern_extends store layer, intern_canonical canonical parts,
    ⟨(intern_holds canonical.toCoherent layer).1, tree_intern canonical.toCoherent parts⟩, by
      unfold intern
      split
      · exact fun _ => rfl
      · exact fun known => absurd known (Nat.lt_irrefl _)⟩

/-- An edited number stands for the edited tree. -/
theorem makes_change (held : store.Holds id) (parts : store.HoldsParts (edit (store.node id))) :
    store.Makes ((edit (store.node id)).toTy store.tree) (store.change id edit) := by
  by_cases unchanged : edit (store.node id) = store.node id
  · rw [change, if_pos unchanged, unchanged]
    exact ⟨.refl store, canonical, ⟨held, tree_eq canonical.toCoherent held⟩, fun _ => rfl⟩
  · rw [change, if_neg unchanged]
    exact makes_intern canonical parts

theorem makes_asRef {ty : Ty} (denotes : store.Denotes id ty) :
    store.Makes ty.asRef (store.asRef id) := by
  have coherent := canonical.toCoherent
  rw [← denotes.layer coherent, ← Node.toTy_withRef]
  refine makes_change canonical denotes.1 ?_
  rw [HoldsParts, Node.children_withRef]
  exact fun child => coherent.child_holds denotes.1

theorem makes_rebuild {feature : FeatureId} {args args' : List Ty} {outer outer' : Option Ty}
    {isRef isThis : Bool} (denotes : store.Denotes id (.applied feature args outer isRef isThis))
    {argIds : List TypeId} (argsDenote : List.Forall₂ store.Denotes argIds args')
    (outerDenotes : Option.Rel store.Denotes outerId outer') :
    store.Makes (.applied feature args' outer' isRef isThis)
      (store.rebuild id argIds outerId) := by
  obtain ⟨_, _, nodeEq, _, _⟩ := denotes.node_applied canonical.toCoherent
  obtain ⟨argsHeld, rfl⟩ := Denotes.forall₂_iff.mp argsDenote
  obtain ⟨outerHeld, rfl⟩ := Denotes.option_rel_iff.mp outerDenotes
  have parts : store.HoldsParts ((store.node id).withParts argIds outerId) := by
    rw [nodeEq]
    exact holdsParts_applied feature argsHeld outerHeld isRef isThis
  have made := makes_change canonical denotes.1 parts
  rw [nodeEq] at made
  exact made

theorem makes_applied (feature : FeatureId) {argIds : List TypeId} {args : List Ty}
    (argsDenote : List.Forall₂ store.Denotes argIds args)
    (outerDenotes : Option.Rel store.Denotes outerId outer) (isRef isThis : Bool) :
    store.Makes (.applied feature args outer isRef isThis)
      (store.intern (.applied feature argIds outerId isRef isThis)) := by
  obtain ⟨argsHeld, rfl⟩ := Denotes.forall₂_iff.mp argsDenote
  obtain ⟨outerHeld, rfl⟩ := Denotes.option_rel_iff.mp outerDenotes
  exact makes_intern canonical (holdsParts_applied feature argsHeld outerHeld isRef isThis)

end

/-! ## Numbers for given types -/

end TypeStore

end FeatureTypes

import FeatureTypes.Ty.Basic
import Std.Data.TreeMap

/-!
# Numbered types

A type store holds every type met so far exactly once and numbers them in order
of first construction.  A stored type refers to its parts by number, so equal
types have equal numbers and comparing two types costs one comparison of
numbers.  With each type the store keeps four facts about its parts, so that
asking for them does not walk the type again.  An index finds the number of a
type from a key that spells out its layer.

`TypeStore.tree` unfolds a number into the type it stands for.  An id is only
meaningful in the store that handed it out; any other id reads as the error
type.
-/

namespace FeatureTypes

/-- The number of a type in a store. -/
structure TypeId where
  index : Nat
  deriving DecidableEq, Inhabited

namespace TypeId

/-- The number of `Ty.error` in every store. -/
def error : TypeId := ⟨0⟩

/-- The number of `Ty.void` in every store. -/
def void : TypeId := ⟨1⟩

/-- The number of `Ty.undefined` in every store. -/
def undefined : TypeId := ⟨2⟩

end TypeId

/-- One layer of a type, with its parts given by number. -/
inductive Node where
  | error
  | void
  | undefined
  | formal (id : FormalId) (boxed : Bool)
  | applied (feature : FeatureId) (args : List TypeId) (outer : Option TypeId)
      (isRef isThis : Bool)
  deriving DecidableEq, Inhabited

namespace Node

/-- The parts of a type: its arguments and then its outer type. -/
def children : Node → List TypeId
  | .applied _ args outer _ _ => args ++ outer.toList
  | _ => []

/-- A list of numbers that spells out the layer: different layers have different
keys. -/
def key : Node → List Nat
  | .error => [0]
  | .void => [1]
  | .undefined => [2]
  | .formal id boxed => [3, id.feature.index, id.index, boxed.toNat]
  | .applied feature args outer isRef isThis =>
    4 :: feature.index :: isRef.toNat :: isThis.toNat
      :: (match outer with | none => 0 | some ty => ty.index + 1)
      :: args.map TypeId.index

/-- The same type held through a reference, or by value.  Only formals and
applied features come in both kinds. -/
def withRef (isRef : Bool) : Node → Node
  | .formal id _ => .formal id isRef
  | .applied feature args outer _ isThis => .applied feature args outer isRef isThis
  | node => node

/-- The type of the enclosing instance, for an applied feature. -/
def asThis : Node → Node
  | .applied feature args outer isRef _ => .applied feature args outer isRef true
  | node => node

/-- The same applied feature with other parts.  Types without parts stay as
they are. -/
def withParts (args : List TypeId) (outer : Option TypeId) : Node → Node
  | .applied feature _ _ isRef isThis => .applied feature args outer isRef isThis
  | node => node

end Node

/-- What occurs in a type, at any depth. -/
structure Flags where
  mentionsFormal : Bool := false
  mentionsThis : Bool := false
  mentionsError : Bool := false
  mentionsUndefined : Bool := false
  deriving DecidableEq, Inhabited

/-- What occurs in either of two types. -/
def Flags.merge (flags other : Flags) : Flags where
  mentionsFormal := flags.mentionsFormal || other.mentionsFormal
  mentionsThis := flags.mentionsThis || other.mentionsThis
  mentionsError := flags.mentionsError || other.mentionsError
  mentionsUndefined := flags.mentionsUndefined || other.mentionsUndefined

/-- A stored type and what occurs in it. -/
structure Entry where
  node : Node
  flags : Flags
  deriving Inhabited

/-- The types met so far; the type with number `i` is at position `i`, and its
key leads to `i` in the index. -/
structure TypeStore where
  entries : Array Entry := #[]
  index : Std.TreeMap (List Nat) TypeId := {}

namespace TypeStore

/-- The number of stored types. -/
def size (store : TypeStore) : Nat :=
  store.entries.size

/-- A short text about the store for debugging. -/
def summary (store : TypeStore) : String :=
  "TypeArena \x7b types: " ++ toString store.size ++ " \x7d"

/-- The type with number `id`, one layer deep. -/
def node (store : TypeStore) (id : TypeId) : Node :=
  match store.entries[id.index]? with
  | some entry => entry.node
  | none => .error

/-- What occurs in the type with number `id`. -/
def flags (store : TypeStore) (id : TypeId) : Flags :=
  match store.entries[id.index]? with
  | some entry => entry.flags
  | none => {}

/-! ## Interning -/

/-- What occurs in a type, given what occurs in its stored parts. -/
def flagsOf (store : TypeStore) : Node → Flags
  | .error => { mentionsError := true }
  | .void => {}
  | .undefined => { mentionsUndefined := true }
  | .formal _ _ => { mentionsFormal := true }
  | .applied feature args outer isRef isThis =>
    (Node.applied feature args outer isRef isThis).children.foldl
      (fun flags child => flags.merge (store.flags child)) { mentionsThis := isThis }

/-- The number of `node`, and the store extended by `node` if it was new. -/
def intern (store : TypeStore) (node : Node) : TypeId × TypeStore :=
  match store.index[node.key]? with
  | some id => (id, store)
  | none =>
    (⟨store.size⟩,
      { entries := store.entries.push ⟨node, store.flagsOf node⟩
        index := store.index.insert node.key ⟨store.size⟩ })

/-- The store that holds the three types without a feature, under their fixed
numbers. -/
def initial : TypeStore :=
  [Node.error, Node.void, Node.undefined].foldl (fun store node => (store.intern node).2) {}

/-! ## Builders -/

/-- The type of a formal held by value. -/
def formal (store : TypeStore) (id : FormalId) : TypeId × TypeStore :=
  store.intern (.formal id false)

/-- A feature applied to `args` inside `outer`. -/
def applied (store : TypeStore) (feature : FeatureId) (args : List TypeId)
    (outer : Option TypeId) (isRef : Bool) : TypeId × TypeStore :=
  store.intern (.applied feature args outer isRef false)

/-- Stores a changed layer of the type `id`, unless nothing changed. -/
def change (store : TypeStore) (id : TypeId) (edit : Node → Node) : TypeId × TypeStore :=
  if edit (store.node id) = store.node id then (id, store) else store.intern (edit (store.node id))

/-- The type `id` held through a reference. -/
def asRef (store : TypeStore) (id : TypeId) : TypeId × TypeStore :=
  store.change id (Node.withRef true)

/-- The type `id` held by value. -/
def asValue (store : TypeStore) (id : TypeId) : TypeId × TypeStore :=
  store.change id (Node.withRef false)

/-- The type of the enclosing instance of the feature of `id`. -/
def asThis (store : TypeStore) (id : TypeId) : TypeId × TypeStore :=
  store.change id Node.asThis

/-- The applied feature `id` with other parts. -/
def rebuild (store : TypeStore) (id : TypeId) (args : List TypeId) (outer : Option TypeId) :
    TypeId × TypeStore :=
  store.change id (Node.withParts args outer)

/-! ## Queries -/

/-- The formal that a type is. -/
def formalId? (store : TypeStore) (id : TypeId) : Option FormalId :=
  match store.node id with
  | .formal formal _ => some formal
  | _ => none

/-- Whether a type is a formal. -/
def isFormal (store : TypeStore) (id : TypeId) : Bool :=
  (store.formalId? id).isSome

/-- The feature that a type applies. -/
def feature? (store : TypeStore) (id : TypeId) : Option FeatureId :=
  match store.node id with
  | .applied feature _ _ _ _ => some feature
  | _ => none

/-- The arguments of an applied feature. -/
def args (store : TypeStore) (id : TypeId) : List TypeId :=
  match store.node id with
  | .applied _ args _ _ _ => args
  | _ => []

/-- The type inside which an applied feature is seen. -/
def outer? (store : TypeStore) (id : TypeId) : Option TypeId :=
  match store.node id with
  | .applied _ _ outer _ _ => outer
  | _ => none

/-- Whether a type is held through a reference. -/
def isRef (store : TypeStore) (id : TypeId) : Bool :=
  match store.node id with
  | .formal _ boxed => boxed
  | .applied _ _ _ isRef _ => isRef
  | _ => false

/-- Whether a type is that of an enclosing instance. -/
def isThis (store : TypeStore) (id : TypeId) : Bool :=
  match store.node id with
  | .applied _ _ _ _ isThis => isThis
  | _ => false

/-- Whether a formal occurs in a type. -/
def mentionsFormal (store : TypeStore) (id : TypeId) : Bool :=
  (store.flags id).mentionsFormal

/-- Whether the type of an enclosing instance occurs in a type. -/
def mentionsThis (store : TypeStore) (id : TypeId) : Bool :=
  (store.flags id).mentionsThis

/-- Whether the error type occurs in a type. -/
def mentionsError (store : TypeStore) (id : TypeId) : Bool :=
  (store.flags id).mentionsError

/-- Whether the undefined type occurs in a type. -/
def mentionsUndefined (store : TypeStore) (id : TypeId) : Bool :=
  (store.flags id).mentionsUndefined

/-- Whether the undefined type occurs in a type outside its first argument. -/
def mentionsUndefinedPastFirst (store : TypeStore) (id : TypeId) : Bool :=
  match store.node id with
  | .applied _ args outer _ _ => (args.drop 1 ++ outer.toList).any store.mentionsUndefined
  | _ => store.mentionsUndefined id

/-! ## Unfolding -/

/-- The type with number `id`, unfolded at most `depth` layers deep. -/
def treeWithin (store : TypeStore) : (depth : Nat) → (id : TypeId) → Ty
  | 0, _ => .error
  | depth + 1, id =>
    match store.node id with
    | .error => .error
    | .void => .void
    | .undefined => .undefined
    | .formal formal boxed => .formal formal boxed
    | .applied feature args outer isRef isThis =>
      .applied feature (args.map (store.treeWithin depth)) (outer.map (store.treeWithin depth))
        isRef isThis

/-- The type with number `id` in full.  The parts of a stored type have smaller
numbers than the type itself, so `id.index + 1` layers are all there are. -/
def tree (store : TypeStore) (id : TypeId) : Ty :=
  store.treeWithin (id.index + 1) id

end TypeStore

end FeatureTypes

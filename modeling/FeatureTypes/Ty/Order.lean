import FeatureTypes.Feature.Table

/-!
# The order of types

A total order on types that does not depend on the order in which they were
made.  Types without a feature come first, then formals, then applied features.
Formals are ordered by feature, name and position, applied features by feature,
number of arguments and arguments.  Among otherwise equal types a reference
precedes a value, and the type of an enclosing instance precedes any other.

Types with equal numbers are equal, so parts that two types share are not
looked into.
-/

namespace FeatureTypes

/-- The place of each kind of type in the order. -/
def Node.rank : Node → Nat
  | .error => 0
  | .void => 1
  | .undefined => 2
  | .formal _ _ => 3
  | .applied _ _ _ _ _ => 4

/-- The order of two formals. -/
def FeatureTable.compareFormals (table : FeatureTable) (left right : FormalId)
    (leftBoxed rightBoxed : Bool) : Except Failure Ordering := do
  let byFeature ← table.compare left.feature right.feature
  let leftName ← table.formalName left
  let rightName ← table.formalName right
  return byFeature.then <| (Ord.compare leftName rightName).then <|
    (Ord.compare left.index right.index).then (Ord.compare rightBoxed leftBoxed)

namespace TypeStore

/-- An order of two types that may fail. -/
abbrev Comparison : Type :=
  (left right : TypeId) → Except Failure Ordering

/-- The order of two argument lists of the same length: that of the first two
arguments that differ. -/
def compareArgs (compare : Comparison) : (left right : List TypeId) → Except Failure Ordering
  | ty :: rest, ty' :: rest' => do
    let byFirst ← compare ty ty'
    if byFirst ≠ .eq then return byFirst
    compareArgs compare rest rest'
  | _, _ => .ok .eq

/-- The order of two outer types.  A type without one comes first. -/
def compareOuter (compare : Comparison) : (left right : Option TypeId) → Except Failure Ordering
  | none, none => .ok .eq
  | none, some _ => .ok .lt
  | some _, none => .ok .gt
  | some ty, some ty' => compare ty ty'

/-- The order of two types of at most `depth` layers, in which the outer types of
`left` and `right` themselves do not count if `skipOuter`. -/
def compareWithin (store : TypeStore) (table : FeatureTable) :
    (depth : Nat) → (skipOuter : Bool) → (left right : TypeId) → Except Failure Ordering
  | 0, _, _, _ => .error .depthExceeded
  | depth + 1, skipOuter, left, right =>
    if left = right then .ok .eq
    else
      match store.node left, store.node right with
      | .formal id boxed, .formal id' boxed' => table.compareFormals id id' boxed boxed'
      | .applied feature args outer isRef isThis,
          .applied feature' args' outer' isRef' isThis' => do
        let byFeature ← table.compare feature feature'
        if byFeature ≠ .eq then return byFeature
        if args.length ≠ args'.length then return Ord.compare args.length args'.length
        let byArgs ← compareArgs (store.compareWithin table depth false) args args'
        if byArgs ≠ .eq then return byArgs
        let byKind := (Ord.compare isRef' isRef).then (Ord.compare isThis' isThis)
        if byKind ≠ .eq ∨ skipOuter then return byKind
        compareOuter (store.compareWithin table depth false) outer outer'
      | node, node' => .ok (Ord.compare node.rank node'.rank)

/-- The order of two types.  The parts of a type have smaller numbers than the
type itself, so `left` has at most `left.index + 1` layers. -/
def compare (store : TypeStore) (table : FeatureTable) (left right : TypeId) :
    Except Failure Ordering :=
  store.compareWithin table (left.index + 1) false left right

/-- The order of two types up to their own outer types. -/
def compareIgnoringOuter (store : TypeStore) (table : FeatureTable) (left right : TypeId) :
    Except Failure Ordering :=
  store.compareWithin table (left.index + 1) true left right

end TypeStore

end FeatureTypes

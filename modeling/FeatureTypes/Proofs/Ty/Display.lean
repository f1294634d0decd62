import FeatureTypes.Ty.Display
import FeatureTypes.Proofs.Store.Denotes

/-!
# Displayed trees

The text depends on the features alone, so it does not change when types are added.
-/

namespace FeatureTypes

namespace Ty

mutual

/-- The phrase that shows a type. -/
def phrase (table : FeatureTable) : Ty → Except Failure Phrase
  | .error => .ok ⟨"<error>", false⟩
  | .void => .ok ⟨"void", false⟩
  | .undefined => .ok ⟨"<undefined>", false⟩
  | .formal id boxed => table.formalPhrase id boxed
  | .applied feature args outer isRef isThis => do
    let declared ← table.get feature
    let qualifier ← outerPhrase table outer
    let kind := if isRef = declared.isRef then "" else if isRef then "ref " else "value "
    let name := declared.name ++ (if isThis then ".this.type" else "")
    let arguments ← argsPhrase table args
    return qualifier ++ .ofString (kind ++ name) ++ arguments

/-- The phrase that shows the outer type, ending in a dot. -/
def outerPhrase (table : FeatureTable) : Option Ty → Except Failure Phrase
  | none => .ok .empty
  | some ty => do
    let outer ← phrase table ty
    return outer.parenthesize ++ ⟨".", false⟩

/-- The phrase that shows the arguments, each behind a blank. -/
def argsPhrase (table : FeatureTable) : List Ty → Except Failure Phrase
  | [] => .ok .empty
  | ty :: rest => do
    let first ← phrase table ty
    let others ← argsPhrase table rest
    return ⟨" ", true⟩ ++ first.parenthesize ++ others

end

/-- The text that shows a type. -/
def display (table : FeatureTable) (ty : Ty) : Except Failure String :=
  return (← ty.phrase table).text

end Ty

namespace TypeStore

variable {store : TypeStore} {table : FeatureTable} {depict : Depiction}

theorem outerPhrase_eq_phrase {outer : Option TypeId}
    (depicts : ∀ ty ∈ outer, depict ty = (store.tree ty).phrase table) :
    outerPhrase depict outer = Ty.outerPhrase table (outer.map store.tree) := by
  cases outer with
  | none => rfl
  | some ty => rw [outerPhrase, depicts ty rfl, Option.map_some, Ty.outerPhrase]

theorem argsPhrase_eq_phrase {args : List TypeId}
    (depicts : ∀ ty ∈ args, depict ty = (store.tree ty).phrase table) :
    argsPhrase depict args = Ty.argsPhrase table (args.map store.tree) := by
  induction args with
  | nil => rfl
  | cons ty rest ih =>
    rw [List.forall_mem_cons] at depicts
    rw [argsPhrase, depicts.1, ih depicts.2, List.map_cons, Ty.argsPhrase]

theorem phraseWithin_eq_phrase (coherent : store.Coherent) {depth : Nat} {ty : TypeId}
    (held : store.Holds ty) (deep : ty.index < depth) :
    store.phraseWithin table depth ty = (store.tree ty).phrase table := by
  induction depth generalizing ty with
  | zero => exact absurd deep (Nat.not_lt_zero _)
  | succ depth ih =>
    -- The parts have smaller numbers, so there is enough depth left for them.
    have depicts : ∀ child ∈ (store.node ty).children,
        store.phraseWithin table depth child = (store.tree child).phrase table := by
      intro child member
      have smaller := coherent.child_lt ty held child member
      exact ih (coherent.child_holds held member) (by omega)
    rw [phraseWithin, tree_eq coherent held]
    cases layer : store.node ty with
    | applied feature args outer isRef isThis =>
      rw [layer] at depicts
      have argsEq := argsPhrase_eq_phrase fun arg member =>
        depicts arg (List.mem_append_left _ member)
      have outerEq := outerPhrase_eq_phrase fun around member =>
        depicts around (List.mem_append_right _ (Option.mem_toList.mpr member))
      simp only [Node.toTy, Ty.phrase, argsEq, outerEq]
    | _ => simp only [Node.toTy, Ty.phrase]

/-- The text of a number is that of its tree. -/
theorem display_eq_display (coherent : store.Coherent) {ty : TypeId} (held : store.Holds ty) :
    store.display table ty = (store.tree ty).display table := by
  rw [display, phraseWithin_eq_phrase coherent held (Nat.lt_succ_self _), Ty.display]

end TypeStore

end FeatureTypes

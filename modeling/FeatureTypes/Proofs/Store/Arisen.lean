import FeatureTypes.Proofs.Lockstep.Marked
import FeatureTypes.Proofs.Store.Construction

/-!
# The stores that arise

A store arises from calls that make types, whatever features are declared, or in a
reachable checker.  In every such store the facts kept about a type are what its tree
shows, and shifting formals renames them in the tree.
-/

namespace FeatureTypes

/-! ## Parts of a type -/

namespace Ty

/-- Whether the type is the error type. -/
def isError : Ty → Bool
  | .error => true
  | _ => false

/-- Whether the type is the undefined type. -/
def isUndefined : Ty → Bool
  | .undefined => true
  | _ => false

/-- The types that occur in a type outside its first argument, itself first. -/
def partsPastFirst : Ty → List Ty
  | .applied feature args outer isRef isThis =>
    .applied feature args outer isRef isThis :: (partsOfList args.tail ++ partsOfOption outer)
  | ty => [ty]

theorem isFormal_iff {ty : Ty} : ty.isFormal = true ↔ ∃ id boxed, ty = .formal id boxed := by
  cases ty <;> simp [isFormal]

theorem isThis_iff {ty : Ty} :
    ty.isThis = true ↔ ∃ feature args outer isRef, ty = .applied feature args outer isRef true := by
  cases ty <;> simp [isThis]

theorem isError_iff {ty : Ty} : ty.isError = true ↔ ty = .error := by
  cases ty <;> simp [isError]

theorem isUndefined_iff {ty : Ty} : ty.isUndefined = true ↔ ty = .undefined := by
  cases ty <;> simp [isUndefined]

end Ty

namespace TypeStore

open Checker

variable {types : TypeStore} {id : TypeId}

section

variable (coherent : types.Coherent) (held : types.Holds id)

include coherent held

theorem mentionsError_iff : types.mentionsError id = true ↔ .error ∈ (types.tree id).parts := by
  have factEq : types.mentionsError id = (types.tree id).parts.any Ty.isError := by
    refine fact_flags_eq_any (fun _ _ => rfl) ?_ coherent held
    intro layer unfold
    cases layer <;> rfl
  simp [factEq, List.any_eq_true, Ty.isError_iff]

theorem mentionsUndefined_iff :
    types.mentionsUndefined id = true ↔ .undefined ∈ (types.tree id).parts := by
  have factEq : types.mentionsUndefined id = (types.tree id).parts.any Ty.isUndefined := by
    refine fact_flags_eq_any (fun _ _ => rfl) ?_ coherent held
    intro layer unfold
    cases layer <;> rfl
  simp [factEq, List.any_eq_true, Ty.isUndefined_iff]

theorem mentionsUndefinedPastFirst_iff :
    types.mentionsUndefinedPastFirst id = true ↔
      .undefined ∈ (types.tree id).partsPastFirst := by
  have mentions := mentionsUndefined_iff coherent held
  have childHeld : ∀ child ∈ (types.node id).children, types.Holds child :=
    fun _ => coherent.child_holds held
  rw [mentionsUndefinedPastFirst]
  rw [tree_eq coherent held] at mentions ⊢
  cases node : types.node id with
  | applied feature args outer isRef isThis =>
    rw [node] at childHeld
    have childIff : ∀ child ∈ args.drop 1 ++ outer.toList,
        types.mentionsUndefined child = true ↔ .undefined ∈ (types.tree child).parts := by
      intro child member
      refine mentionsUndefined_iff coherent (childHeld child ?_)
      exact List.mem_append.mpr ((List.mem_append.mp member).imp_left List.mem_of_mem_drop)
    simp only [Node.toTy, Ty.partsPastFirst, List.any_eq_true, List.mem_cons, reduceCtorEq,
      false_or, List.mem_append, Ty.mem_partsOfList, Ty.mem_partsOfOption, ← List.map_tail,
      List.drop_one, List.mem_map, Option.map_eq_some_iff, Option.mem_toList] at childIff ⊢
    constructor
    · rintro ⟨child, inArgs | isOuter, mentions⟩
      · exact Or.inl ⟨_, ⟨child, inArgs, rfl⟩, (childIff child (Or.inl inArgs)).mp mentions⟩
      · exact Or.inr ⟨_, ⟨child, isOuter, rfl⟩, (childIff child (Or.inr isOuter)).mp mentions⟩
    · rintro (⟨_, ⟨child, inArgs, rfl⟩, occurs⟩ | ⟨_, ⟨child, isOuter, rfl⟩, occurs⟩)
      · exact ⟨child, Or.inl inArgs, (childIff child (Or.inl inArgs)).mpr occurs⟩
      · exact ⟨child, Or.inr isOuter, (childIff child (Or.inr isOuter)).mpr occurs⟩
  | _ =>
    rw [node] at mentions
    exact mentions

end

/-- The store comes from calls that make types, or belongs to a reachable checker. -/
def Arisen (types : TypeStore) : Prop :=
  types.Reached ∨ ∃ checker : Checker, checker.Reachable ∧ checker.types = types

theorem Arisen.canonical (arisen : types.Arisen) : types.Canonical := by
  rcases arisen with reached | ⟨checker, reachable, rfl⟩
  · exact reached.canonical
  · exact reachable.sound.toWellFormed.types_canonical

/-- The facts that are kept about a type are those that its tree shows. -/
theorem Arisen.facts_exact (arisen : types.Arisen) (held : types.Holds id) :
    (types.mentionsFormal id = true ↔
      ∃ formal boxed, Ty.formal formal boxed ∈ (types.tree id).parts) ∧
    (types.mentionsThis id = true ↔ ∃ feature args outer isRef,
      Ty.applied feature args outer isRef true ∈ (types.tree id).parts) ∧
    (types.mentionsError id = true ↔ .error ∈ (types.tree id).parts) ∧
    (types.mentionsUndefined id = true ↔ .undefined ∈ (types.tree id).parts) ∧
    (types.mentionsUndefinedPastFirst id = true ↔
      .undefined ∈ (types.tree id).partsPastFirst) := by
  have coherent := arisen.canonical.toCoherent
  refine ⟨?_, ?_, mentionsError_iff coherent held, mentionsUndefined_iff coherent held,
    mentionsUndefinedPastFirst_iff coherent held⟩
  · rw [mentionsFormal_eq coherent held, Ty.mentionsFormal, List.any_eq_true]
    simp only [Ty.isFormal_iff]
    constructor
    · rintro ⟨_, occurs, formal, boxed, rfl⟩
      exact ⟨formal, boxed, occurs⟩
    · rintro ⟨formal, boxed, occurs⟩
      exact ⟨_, occurs, formal, boxed, rfl⟩
  · rw [mentionsThis_eq coherent held, Ty.mentionsThis, List.any_eq_true]
    simp only [Ty.isThis_iff]
    constructor
    · rintro ⟨_, occurs, feature, args, outer, isRef, rfl⟩
      exact ⟨feature, args, outer, isRef, occurs⟩
    · rintro ⟨feature, args, outer, isRef, occurs⟩
      exact ⟨_, occurs, feature, args, outer, isRef, rfl⟩

/-- A type of an enclosing instance with the undefined type as its first argument. -/
def undefinedOperations : List Operation :=
  [.declare (.feature "pair" none true), .construct (.formal ⟨⟨1⟩, 0⟩),
    .construct (.applied ⟨1⟩ [⟨2⟩, ⟨3⟩] none true), .construct (.asThis ⟨4⟩)]

theorem Arisen.facts_exact_undefined :
    let types := (afterAll undefinedOperations {}).types
    types.Arisen ∧ types.Holds ⟨5⟩ ∧
      (∃ formal boxed, Ty.formal formal boxed ∈ (types.tree ⟨5⟩).parts) ∧
      (∃ feature args outer isRef,
        Ty.applied feature args outer isRef true ∈ (types.tree ⟨5⟩).parts) ∧
      .error ∉ (types.tree ⟨5⟩).parts ∧ .undefined ∈ (types.tree ⟨5⟩).parts ∧
      .undefined ∉ (types.tree ⟨5⟩).partsPastFirst := by
  intro types
  have arisen : types.Arisen :=
    Or.inr ⟨_, (Reachable.initial {} {}).steps (by decide +kernel), rfl⟩
  have held : types.Holds ⟨5⟩ := by decide +kernel
  have facts : types.mentionsFormal ⟨5⟩ = true ∧ types.mentionsThis ⟨5⟩ = true ∧
      types.mentionsError ⟨5⟩ ≠ true ∧ types.mentionsUndefined ⟨5⟩ = true ∧
      types.mentionsUndefinedPastFirst ⟨5⟩ ≠ true := by decide +kernel
  obtain ⟨formals, these, errors, undefineds, past⟩ := arisen.facts_exact held
  exact ⟨arisen, held, formals.mp facts.1, these.mp facts.2.1, mt errors.mpr facts.2.2.1,
    undefineds.mp facts.2.2.2.1, mt past.mpr facts.2.2.2.2⟩

end TypeStore

/-! ## Shifting -/

namespace Checker

/-- Shifting overflows if and only if a formal would end up behind the last position.
Otherwise it renames the formals of `source` and keeps everything else, and where no
formal changes it gives the type back. -/
theorem shiftFormals_renames {checker : Checker} (arisen : checker.types.Arisen) {ty : TypeId}
    (held : checker.types.Holds ty) (source target : FeatureId) (offset : Nat) :
    ((∃ after, (shiftFormals source target offset ty).run checker =
        .error .formalIndexOverflow after) ↔
      ∃ position boxed, Ty.formal ⟨source, position⟩ boxed ∈ (checker.types.tree ty).parts ∧
        2 ^ 32 ≤ position + offset) ∧
    ((∀ position boxed, Ty.formal ⟨source, position⟩ boxed ∈ (checker.types.tree ty).parts →
        position + offset < 2 ^ 32) →
      ∃ result after, (shiftFormals source target offset ty).run checker = .ok result after ∧
        after.types.Holds result ∧
        after.types.tree result = (checker.types.tree ty).shift source target offset ∧
        (result = ty ↔ ∀ position boxed,
          Ty.formal ⟨source, position⟩ boxed ∈ (checker.types.tree ty).parts →
            (⟨target, position + offset⟩ : FormalId) = ⟨source, position⟩)) := by
  have denotes : checker.types.Denotes ty (checker.types.tree ty) := ⟨held, rfl⟩
  have fits : (checker.types.tree ty).Shiftable source offset ↔ ∀ position boxed,
      Ty.formal ⟨source, position⟩ boxed ∈ (checker.types.tree ty).parts →
        position + offset < 2 ^ 32 := Ty.shiftable_iff
  have overflows : ¬ (checker.types.tree ty).Shiftable source offset ↔ ∃ position boxed,
      Ty.formal ⟨source, position⟩ boxed ∈ (checker.types.tree ty).parts ∧
        2 ^ 32 ≤ position + offset := by
    rw [fits]
    push Not
    rfl
  rw [← overflows, ← fits]
  obtain ⟨types, extension, canonical, ⟨fit, result, run, resultDenotes⟩ | ⟨unfit, run⟩⟩ :=
    shifts_shiftFormals arisen.canonical source target offset denotes
  · have same : result = ty ↔
        (checker.types.tree ty).shift source target offset = checker.types.tree ty :=
      resultDenotes.inj (denotes.of_extends arisen.canonical.toCoherent canonical.toCoherent
        extension) canonical.toCoherent
    refine ⟨⟨fun ⟨after, run'⟩ => ?_, fun unfit => absurd fit unfit⟩, fun _ =>
      ⟨result, _, run, resultDenotes.1, resultDenotes.2, same.trans Ty.shift_eq_self_iff⟩⟩
    cases run.symm.trans run'
  · exact ⟨⟨fun _ => unfit, fun _ => ⟨_, run⟩⟩, fun fit => absurd fit unfit⟩

/-- A feature applied to a formal of its own, which is held through a reference. -/
def shiftOperations : List Operation :=
  [.declare (.feature "list" none true), .construct (.formal ⟨⟨1⟩, 3⟩),
    .construct (.asRef ⟨3⟩), .construct (.applied ⟨1⟩ [⟨4⟩] none false)]

theorem shiftFormals_renames_list :
    let checker := afterAll shiftOperations {}
    let list : Ty := .applied ⟨1⟩ [.formal ⟨⟨1⟩, 3⟩ true] none false false
    checker.types.Arisen ∧ checker.types.Holds ⟨5⟩ ∧ checker.types.tree ⟨5⟩ = list ∧
      (∃ result after, (shiftFormals ⟨1⟩ ⟨2⟩ 2 ⟨5⟩).run checker = .ok result after ∧
        after.types.tree result = .applied ⟨1⟩ [.formal ⟨⟨2⟩, 5⟩ true] none false false ∧
        result ≠ ⟨5⟩) ∧
      (∃ after, (shiftFormals ⟨1⟩ ⟨2⟩ 4294967293 ⟨5⟩).run checker =
        .error .formalIndexOverflow after) := by
  intro checker list
  have arisen : checker.types.Arisen :=
    Or.inr ⟨checker, (Reachable.initial {} {}).steps (by decide +kernel), rfl⟩
  have held : checker.types.Holds ⟨5⟩ := by decide +kernel
  have treeEq : checker.types.tree ⟨5⟩ = list := by decide +kernel
  have occurs : Ty.formal ⟨⟨1⟩, 3⟩ true ∈ (checker.types.tree ⟨5⟩).parts := by decide +kernel
  have shiftable : (checker.types.tree ⟨5⟩).Shiftable ⟨1⟩ 2 := by decide +kernel
  obtain ⟨_, renames⟩ := shiftFormals_renames arisen held ⟨1⟩ ⟨2⟩ 2
  obtain ⟨overflows, _⟩ := shiftFormals_renames arisen held ⟨1⟩ ⟨2⟩ 4294967293
  obtain ⟨result, after, run, _, renamed, same⟩ := renames (Ty.shiftable_iff.mp shiftable)
  refine ⟨arisen, held, treeEq, ⟨result, after, run, ?_, fun unchanged => ?_⟩,
    overflows.mpr ⟨3, true, occurs, by decide⟩⟩
  · rw [renamed, treeEq]
    decide
  · exact absurd (same.mp unchanged 3 true occurs) (by decide)

end Checker

end FeatureTypes

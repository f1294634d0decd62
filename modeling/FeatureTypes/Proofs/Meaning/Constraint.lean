import FeatureTypes.Proofs.Meaning.Assignability
import FeatureTypes.Proofs.Store.Whole

/-!
# The meaning of a failed constraint

A constraint check that says no has looked at the constraint of a formal, or at all parents
of an applied feature, and got the same answer there.
-/

namespace FeatureTypes

/-! ## Types at one glance -/

namespace Ty

/-- The arguments of the type. -/
def args : Ty → List Ty
  | .applied _ args _ _ _ => args
  | _ => []

/-- Constraint checks need not look into the types: one of them could not be typed or is
unknown, they are equal, or no value of type `actual` exists. -/
def TriviallyMeets (constraint actual : Ty) : Prop :=
  (¬ constraint.Whole ∨ ¬ actual.Whole) ∨
    (constraint.isAbsorbing = true ∨ actual.isAbsorbing = true) ∨
      constraint = actual ∨ actual = .void

/-- The types apply the same feature to equally many arguments. -/
def SameShape (left right : Ty) : Prop :=
  left.appliedFeature? = right.appliedFeature? ∧ left.args.length = right.args.length

end Ty

namespace TypeStore.Denotes

variable {types : TypeStore} {left right : TypeId} {left' right' : Ty}

theorem argsLength_eq (denotes : types.Denotes left left') (coherent : types.Coherent) :
    (types.args left).length = left'.args.length := by
  rw [← denotes.layer coherent, args]
  cases types.node left <;> simp [Node.toTy, Ty.args]

theorem mentionsError_iff (denotes : types.Denotes left left') (coherent : types.Coherent) :
    types.mentionsError left = true ↔ ¬ left'.Whole := by
  have wholeIff : types.mentionsError left = false ↔ left'.Whole := by
    have whole : types.Whole left ↔ _ := whole_iff coherent
    rw [denotes.2] at whole
    exact ⟨fun clean => (whole.mp ⟨denotes.1, clean⟩).2,
      fun clean => (whole.mpr ⟨denotes.1, clean⟩).2⟩
  rw [← wholeIff, Bool.not_eq_false]

section

variable (denotes : types.Denotes left left') (denotes' : types.Denotes right right')

include denotes denotes'

theorem sameShape_iff (coherent : types.Coherent) :
    Checker.sameShape types left right = true ↔ left'.SameShape right' := by
  rw [Checker.sameShape, Bool.and_eq_true, decide_eq_true_eq, decide_eq_true_eq,
    denotes.feature?_eq coherent, denotes'.feature?_eq coherent, denotes.argsLength_eq coherent,
    denotes'.argsLength_eq coherent, Ty.SameShape]

theorem triviallyMeets_iff (canonical : types.Canonical) :
    Checker.triviallyMeets types left right = true ↔ left'.TriviallyMeets right' := by
  have coherent := canonical.toCoherent
  simp only [Checker.triviallyMeets, Ty.TriviallyMeets, Bool.or_eq_true, decide_eq_true_eq,
    or_assoc, denotes.mentionsError_iff coherent, denotes'.mentionsError_iff coherent,
    denotes.isAbsorbing_iff canonical, denotes'.isAbsorbing_iff canonical,
    denotes.inj denotes' coherent, denotes'.inj (void canonical) coherent]

end

end TypeStore.Denotes

/-! ## Failed checks -/

/-- The constraint is not met by the type, for reasons that end somewhere. -/
inductive Signature.Fails (signature : Signature) (constraint : Ty) : (actual : Ty) → Prop
  | formal {actual : Ty} (looks : ¬ constraint.TriviallyMeets actual)
      (isFormal : constraint.isFormal = true) : Fails signature constraint actual
  | unbound {id : FormalId} {boxed : Bool}
      (looks : ¬ constraint.TriviallyMeets (.formal id boxed))
      (unbound : ∀ bound, signature.constraint? id = some (some bound) →
        bound = .formal id boxed) : Fails signature constraint (.formal id boxed)
  | bound {id : FormalId} {boxed : Bool} {bound : Ty}
      (looks : ¬ constraint.TriviallyMeets (.formal id boxed))
      (declared : signature.constraint? id = some (some bound))
      (above : Fails signature constraint bound) : Fails signature constraint (.formal id boxed)
  | applied {feature : FeatureId} {args : List Ty} {outer : Option Ty} {isRef isThis : Bool}
      {outline : Outline} {seen : ParentOutline → Ty}
      (looks : ¬ constraint.TriviallyMeets (.applied feature args outer isRef isThis))
      (different : ¬ constraint.SameShape (.applied feature args outer isRef isThis))
      (declared : signature.feature feature = some outline)
      (views : ∀ parent ∈ outline.parents,
        signature.substituteVia (.applied feature args outer isRef isThis) parent.ty =
          some (seen parent))
      (above : ∀ parent ∈ outline.parents, Fails signature constraint (seen parent)) :
      Fails signature constraint (.applied feature args outer isRef isThis)

namespace Checker

variable {signature : Signature} {checker : Checker}

theorem finds_anyParentMeets {check : TypeId → CheckM Bool} {fails : Ty → Prop}
    (checks : ∀ after ty tree, after.Obeys signature → checker.Onward after →
      after.types.Denotes ty tree →
        Finds signature after (check ty) fun _ holds => holds = false → fails tree) (depth : Nat)
    (obeys : checker.Obeys signature) {actual : TypeId} {actual' : Ty}
    (actualDenotes : checker.types.Denotes actual actual') {parents : List Parent}
    (held : ∀ parent ∈ parents, checker.types.Holds parent.ty) :
    Finds signature checker (anyParentMeets check depth actual parents) fun _ holds =>
      holds = false → ∀ parent ∈ parents, ∃ ancestor,
        signature.substituteVia actual' (checker.types.tree parent.ty) = some ancestor ∧
          fails ancestor := by
  induction parents generalizing checker with
  | nil => exact .pure obeys (by simp)
  | cons parent rest ih =>
    rw [List.forall_mem_cons] at held
    refine .bind (means_substituteViaWithin depth obeys actualDenotes ⟨held.1, rfl⟩).finds ?_
    rintro after₁ ancestor obeys₁ onward₁ ⟨ancestor', seen, ancestorDenotes⟩
    refine .bind (checks after₁ ancestor ancestor' obeys₁ onward₁ ancestorDenotes) ?_
    intro after₂ meets obeys₂ onward₂ failsFirst
    have onward := onward₁.trans onward₂
    cases meets with
    | true => exact .pure obeys₂ (by simp)
    | false =>
      have restHeld : ∀ parent ∈ rest, after₂.types.Holds parent.ty :=
        fun parent member => onward.types_extend.holds (held.2 parent member)
      refine (ih (fun after ty tree obeys' onward' => checks after ty tree
        obeys' (onward.trans onward')) obeys₂ (obeys.denotes obeys₂ onward actualDenotes)
        restHeld).weaken ?_
      intro after holds _ _ restFails no
      refine List.forall_mem_cons.mpr ⟨⟨ancestor', seen, failsFirst rfl⟩, ?_⟩
      intro parent member
      rw [← TypeStore.tree_eq_of_extends obeys.types_canonical.toCoherent
        obeys₂.types_canonical.toCoherent onward.types_extend (held.2 parent member)]
      exact restFails no parent member

/-- A check that says no has a finite reason. -/
theorem finds_meetsConstraintWithin (depth : Nat) (obeys : checker.Obeys signature)
    {constraint actual : TypeId} {constraint' actual' : Ty}
    (constraintDenotes : checker.types.Denotes constraint constraint')
    (actualDenotes : checker.types.Denotes actual actual') :
    Finds signature checker (meetsConstraintWithin depth constraint actual) fun _ holds =>
      holds = false → signature.Fails constraint' actual' := by
  induction depth generalizing checker actual actual' with
  | zero => exact .fail .depthExceeded _
  | succ depth ih =>
    have coherent := obeys.types_canonical.toCoherent
    refine .look (run_readTypes checker _) ?_
    have triviallyIff := constraintDenotes.triviallyMeets_iff actualDenotes obeys.types_canonical
    split
    next => exact .pure obeys (by simp)
    next looks =>
      rw [triviallyIff] at looks
      refine .look (run_readTypes checker _) ?_
      rw [constraintDenotes.isFormal_eq coherent]
      split
      next isFormal => exact .pure obeys fun _ => .formal looks isFormal
      next =>
        refine .node actualDenotes coherent ?_
        intro layer reads
        cases reads with
        | formal id boxed =>
          refine .bind (realizes_constraint? (.free _) obeys id).finds ?_
          rintro after₁ bound obeys₁ onward₁ ⟨bound', declared, boundDenotes⟩
          cases boundDenotes with
          | none => exact .pure obeys₁ fun _ => .unbound looks (by simp [declared])
          | some boundDenotes =>
            have sameIff := boundDenotes.inj (obeys.denotes obeys₁ onward₁ actualDenotes)
              obeys₁.types_canonical.toCoherent
            dsimp only
            split
            next same =>
              refine .pure obeys₁ fun _ => .unbound looks ?_
              intro bound declared'
              rw [declared, Option.some.injEq, Option.some.injEq] at declared'
              rw [← declared', sameIff.mp same]
            next =>
              refine (ih obeys₁
                (obeys.denotes obeys₁ onward₁ constraintDenotes) boundDenotes).weaken ?_
              exact fun _ _ _ _ fails no => .bound looks declared (fails no)
        | applied feature =>
          refine .look (run_readTypes checker _) ?_
          split
          next => exact .pure obeys (by simp)
          next different =>
            rw [constraintDenotes.sameShape_iff actualDenotes coherent] at different
            refine .bind (Finds.feature obeys feature) ?_
            rintro _ declared _ _ ⟨rfl, found, outlineEq⟩
            refine (finds_anyParentMeets (fun after ty tree obeys' onward =>
              ih obeys' (obeys.denotes obeys' onward constraintDenotes)) depth
              obeys actualDenotes
              (obeys.features_wellFormed feature declared found).ty_held).weaken ?_
            intro after holds _ _ fails no
            have above : ∀ parent ∈ (declared.outline checker.types.tree).parents,
                ∃ ancestor, signature.substituteVia _ parent.ty = some ancestor ∧
                  signature.Fails constraint' ancestor :=
              List.forall_mem_map.mpr (fails no)
            choose! seen views above using above
            exact .applied looks different outlineEq views above
        | void => exact absurd (Or.inr (Or.inr (Or.inr rfl))) looks
        | error | undefined => exact absurd (Or.inr (Or.inl (Or.inr rfl))) looks

end Checker

end FeatureTypes

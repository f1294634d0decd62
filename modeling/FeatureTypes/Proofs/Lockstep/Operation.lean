import FeatureTypes.Proofs.Coupling.Operation
import FeatureTypes.Proofs.Lockstep.Engine

/-!
# Operations in lockstep
-/

namespace FeatureTypes.Lockstep

variable {memos : Checker → Checker → Prop}

open Checker Coupling

theorem exact (memos : Checker → Checker → Prop) : (lockstep memos).Exact :=
  fun _ _ _ same => same.1

section

variable {memos : Checker → Checker → Prop} {pair : Pair memos}

theorem couples_construction (core : (lockstep memos).Core) (construction : Construction)
    (held : ∀ ty ∈ construction.uses, pair.first.types.Holds ty) :
    (lockstep memos).couples pair (do return Answer.type (← construction.run))
      (do return Answer.type (← construction.run)) (lockstep memos).Agrees :=
  core.typeAnswer (exact memos)
    (core.construction construction fun ty member => ⟨rfl, held ty member⟩)

/-- Both checkers answer alike. -/
theorem couples_call (full : (lockstep memos).Full) (call : Call)
    (held : ∀ ty ∈ call.uses, pair.first.types.Holds ty) :
    (lockstep memos).couples pair call.run call.run (lockstep memos).Agrees :=
  full.call (exact memos) call fun ty member => ⟨rfl, held ty member⟩

theorem couples_companion (core : (lockstep memos).Core) {id : FeatureId}
    (coupled : (lockstep memos).couples pair (companion? id) (companion? id)
      (lockstep memos).Agrees) :
    (lockstep memos).couples pair (Operation.companion id).run (Operation.companion id).run
      (lockstep memos).Agrees :=
  core.answer .feature coupled fun _ _ _ agree => agree

end

/-! ## Declarations -/

/-- The relation between memo tables does not depend on the features. -/
structure Detached (memos : Checker → Checker → Prop) : Prop where
  stable : Stable memos
  rewrite : ∀ {checker twin : Checker} (table : FeatureTable), memos checker twin →
    memos { checker with features := table } { twin with features := table }

theorem Detached.writable (detached : Detached memos) : Writable memos fun _ => True :=
  .of_keeps detached.stable (fun _ _ _ => trivial)
    fun pair _ _ => detached.rewrite _ pair.related

theorem couples_declareTypeRoot {pair : Pair memos} {root : FeatureId}
    (allowed : pair.Allows { pair.first.features with typeRoot := some root }) :
    (lockstep memos).couples pair (declareTypeRoot root) (declareTypeRoot root)
      (lockstep memos).Agrees := by
  have twins := pair.twins
  have twins' : Twins
      { pair.first with features := { pair.first.features with typeRoot := some root } }
      { pair.second with features := { pair.first.features with typeRoot := some root } } :=
    { twins with
      features_eq := rfl
      wellFormed := { twins.wellFormed with } }
  change Outcome pair _
    (.ok () { pair.first with features := { pair.first.features with typeRoot := some root } })
    (.ok () { pair.second with features := { pair.second.features with typeRoot := some root } })
  rw [twins.features_eq]
  exact .ok (⟨_, _, twins', allowed⟩ : Pair memos) ⟨TypeStore.Extends.refl pair.first.types,
    FeatureTable.Develops.refl pair.first.features⟩ rfl

theorem couples_declaration (writable : Writable memos fun _ => True)
    (typeRoot : ∀ (pair : Pair memos) (root : FeatureId),
      pair.Allows { pair.first.features with typeRoot := some root }) {pair : Pair memos}
    (declaration : Declaration) (held : ∀ ty ∈ declaration.uses, pair.first.types.Holds ty) :
    (lockstep memos).couples pair declaration.run declaration.run (lockstep memos).Agrees := by
  have core := core writable.stable
  cases declaration with
  | feature name outer isRef =>
    exact core.answer (fun id => .feature (some id))
      (couples_declare writable name (outer.getD .universe) isRef
        fun _ isOrigin => nomatch isOrigin) fun _ _ _ related => related.1
  | formal owner name constraint isOpen span =>
    exact core.typeAnswer (exact memos) (couples_declareFormal writable trivial name
      ⟨rfl, held constraint (List.mem_singleton.mpr rfl)⟩ isOpen span)
  | parent heir ancestor actuals =>
    exact core.answer (fun _ => .none) (couples_declareParent writable trivial ancestor
      (TypeStore.forall₂_shares_iff.mpr ⟨rfl, held⟩)) fun _ _ _ agree => agree
  | choice id summands =>
    exact core.answer (fun _ => .none) (couples_declareChoice writable trivial
      (TypeStore.forall₂_shares_iff.mpr ⟨rfl, held⟩)) fun _ _ _ agree => agree
  | typeRoot root =>
    exact core.answer (fun _ => .none) (couples_declareTypeRoot (typeRoot pair root))
      fun _ _ _ agree => agree

theorem Detached.couples_declaration (detached : Detached memos) {pair : Pair memos}
    (declaration : Declaration) (held : ∀ ty ∈ declaration.uses, pair.first.types.Holds ty) :
    (lockstep memos).couples pair declaration.run declaration.run (lockstep memos).Agrees :=
  Lockstep.couples_declaration detached.writable
    (fun pair _ => detached.rewrite _ pair.related) declaration held

end FeatureTypes.Lockstep

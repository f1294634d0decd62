import FeatureTypes.Proofs.Checker.Operation
import FeatureTypes.Proofs.Store.Shifting

/-!
# Stores that are reached by making types

In every store that calls lead to, numbers stand for types one to one.
-/

namespace FeatureTypes.Checker

variable {ty : TypeId}

/-! ## Building -/

/-- A run of the operation in a checker with the given types keeps the store
canonical and only adds to it, and its result is good in the store it leaves. -/
def Builds {α : Type} (operation : CheckM α) (types : TypeStore) (good : TypeStore → α → Prop) :
    Prop :=
  ∀ checker : Checker, checker.types = types →
    match operation.run checker with
    | .ok result after =>
      types.Extends after.types ∧ after.types.Canonical ∧ good after.types result
    | .error _ after => types.Extends after.types ∧ after.types.Canonical

namespace Builds

variable {α β : Type} {types : TypeStore}

theorem bind {operation : CheckM α} {next : α → CheckM β} {middle : TypeStore → α → Prop}
    {good : TypeStore → β → Prop} (first : Builds operation types middle)
    (rest : ∀ types' result, types.Extends types' → types'.Canonical → middle types' result →
      Builds (next result) types' good) : Builds (operation >>= next) types good := by
  intro checker typesEq
  have built := first checker typesEq
  rw [EStateM.run_bind]
  cases run : operation.run checker with
  | error failure after =>
    simp only [run] at built ⊢
    exact built
  | ok result after =>
    simp only [run] at built ⊢
    obtain ⟨extension, canonical, isGood⟩ := built
    have builtNext := rest after.types result extension canonical isGood after rfl
    cases runNext : (next result).run after with
    | error failure final =>
      simp only [runNext] at builtNext ⊢
      exact ⟨extension.trans builtNext.1, builtNext.2⟩
    | ok result' final =>
      simp only [runNext] at builtNext ⊢
      exact ⟨extension.trans builtNext.1, builtNext.2⟩

section

variable (canonical : types.Canonical)

include canonical

theorem pure {result : α} {good : TypeStore → α → Prop} (isGood : good types result) :
    Builds (Pure.pure result) types good := by
  rintro checker rfl
  exact ⟨.refl _, canonical, isGood⟩

theorem fail (failure : Failure) {good : TypeStore → α → Prop} :
    Builds (throw failure) types good := by
  rintro checker rfl
  exact ⟨.refl _, canonical⟩

theorem feature (id : FeatureId) : Builds (feature id) types fun _ _ => True := by
  rintro checker rfl
  simp only [Checker.feature, run_readFeatures]
  cases checker.features.get id with
  | ok declared => exact ⟨.refl _, canonical, trivial⟩
  | error failure => exact ⟨.refl _, canonical⟩

theorem intern {layer : Node} (parts : types.HoldsParts layer) :
    Builds (onTypes (·.intern layer)) types TypeStore.Holds := by
  rintro checker rfl
  exact ⟨TypeStore.intern_extends _ layer, TypeStore.intern_canonical canonical parts,
    (TypeStore.intern_holds canonical.toCoherent layer).1⟩

theorem change {edit : Node → Node} (held : types.Holds ty)
    (parts : types.HoldsParts (edit (types.node ty))) :
    Builds (onTypes (·.change ty edit)) types TypeStore.Holds := by
  rintro checker rfl
  simp only [run_onTypes, TypeStore.change]
  split
  · exact ⟨.refl _, canonical, held⟩
  · exact intern canonical parts checker rfl

theorem mapM {operation : α → CheckM TypeId} {list : List α}
    (each : ∀ types' argument, types.Extends types' → types'.Canonical → argument ∈ list →
      Builds (operation argument) types' TypeStore.Holds) :
    Builds (list.mapM operation) types fun types' results =>
      ∀ result ∈ results, types'.Holds result := by
  induction list generalizing types with
  | nil =>
    simp only [List.mapM_nil]
    exact pure canonical (by simp)
  | cons head tail ih =>
    simp only [List.mapM_cons]
    refine bind (each types head (.refl _) canonical List.mem_cons_self) ?_
    intro types₁ first extension₁ canonical₁ firstHeld
    refine bind (ih canonical₁ fun types' argument extension canonical' member =>
      each types' argument (extension₁.trans extension) canonical'
        (List.mem_cons_of_mem _ member)) ?_
    intro types₂ others extension₂ canonical₂ othersHeld
    exact pure canonical₂
      (List.forall_mem_cons.mpr ⟨extension₂.holds firstHeld, othersHeld⟩)

/-! ## Calls that make types -/

theorem applied (id : FeatureId) {args : List TypeId} {outer : Option TypeId} (isRef isThis : Bool)
    (argsHeld : ∀ ty ∈ args, types.Holds ty) (outerHeld : ∀ ty ∈ outer, types.Holds ty) :
    Builds (onTypes (·.intern (.applied id args outer isRef isThis))) types TypeStore.Holds :=
  intern canonical (TypeStore.holdsParts_applied id argsHeld outerHeld isRef isThis)

theorem formal (id : FormalId) (boxed : Bool) :
    Builds (onTypes (·.intern (.formal id boxed))) types TypeStore.Holds :=
  intern canonical fun child member => by cases member

theorem withRef (held : types.Holds ty) (isRef : Bool) :
    Builds (onTypes (·.change ty (Node.withRef isRef))) types TypeStore.Holds := by
  refine change canonical held fun child member => canonical.child_holds held ?_
  generalize types.node ty = layer at member ⊢
  cases layer <;> exact member

theorem asThis (held : types.Holds ty) : Builds (onTypes (·.asThis ty)) types TypeStore.Holds := by
  refine change canonical held fun child member => canonical.child_holds held ?_
  generalize types.node ty = layer at member ⊢
  cases layer <;> exact member

theorem rebuild {args : List TypeId} {outer : Option TypeId} (held : types.Holds ty)
    (argsHeld : ∀ ty ∈ args, types.Holds ty) (outerHeld : ∀ ty ∈ outer, types.Holds ty) :
    Builds (onTypes (·.rebuild ty args outer)) types TypeStore.Holds := by
  refine change canonical held ?_
  cases types.node ty with
  | applied feature _ _ isRef isThis =>
    exact TypeStore.holdsParts_applied feature argsHeld outerHeld isRef isThis
  | _ => exact fun child member => by cases member

theorem outerTypeBy {typeOf : FeatureId → CheckM TypeId}
    (each : ∀ types' id, types.Extends types' → types'.Canonical →
      Builds (typeOf id) types' TypeStore.Holds) (id : FeatureId) :
    Builds (outerTypeBy typeOf id) types fun types' outer => ∀ ty ∈ outer, types'.Holds ty := by
  refine bind (feature canonical id) ?_
  intro types₁ declared extension₁ canonical₁ _
  cases declared.outer with
  | none => exact pure canonical₁ (by simp)
  | some outer =>
    refine bind (feature canonical₁ outer) ?_
    intro types₂ around extension₂ canonical₂ _
    split
    · exact pure canonical₂ (by simp)
    · refine bind (each types₂ outer (extension₁.trans extension₂) canonical₂) ?_
      intro types₃ ty _ canonical₃ held
      exact pure canonical₃ (by simpa using held)

theorem selfTypeWithin (depth : Nat) (id : FeatureId) :
    Builds (selfTypeWithin depth id) types TypeStore.Holds := by
  induction depth generalizing types id with
  | zero => exact fail canonical .depthExceeded
  | succ depth ih =>
    refine bind (feature canonical id) ?_
    intro types₁ declared _ canonical₁ _
    refine bind (mapM canonical₁ fun types' declaredFormal _ canonical' _ =>
      formal canonical' declaredFormal.id false) ?_
    intro types₂ args _ canonical₂ argsHeld
    refine bind (outerTypeBy canonical₂
      (fun types' id _ canonical' => ih canonical' id) id) ?_
    intro types₃ outer extension₃ canonical₃ outerHeld
    exact applied canonical₃ id declared.isRef false
      (fun ty member => extension₃.holds (argsHeld ty member)) outerHeld

theorem instantiate (id : FeatureId) {args : List TypeId} (argsHeld : ∀ ty ∈ args, types.Holds ty) :
    Builds (instantiate id args) types TypeStore.Holds := by
  refine bind (feature canonical id) ?_
  intro types₁ declared extension₁ canonical₁ _
  refine bind (outerTypeBy canonical₁
    (fun types' id _ canonical' => selfTypeWithin canonical' _ id) id) ?_
  intro types₂ outer extension₂ canonical₂ outerHeld
  exact applied canonical₂ id declared.isRef false
    (fun ty member => (extension₁.trans extension₂).holds (argsHeld ty member)) outerHeld

theorem shiftFormals (source target : FeatureId) (offset : Nat) (held : types.Holds ty) :
    Builds (shiftFormals source target offset ty) types TypeStore.Holds := by
  rintro checker rfl
  obtain ⟨types, extension, canonical', ⟨_, result, run, denotes⟩ | ⟨_, run⟩⟩ :=
    shifts_shiftFormals canonical source target offset ⟨held, rfl⟩
  · rw [run]
    exact ⟨extension, canonical', denotes.1⟩
  · rw [run]
    exact ⟨extension, canonical'⟩

end

end Builds

/-- Every construction keeps the store canonical, even if it fails. -/
theorem Construction.builds (construction : Construction) {types : TypeStore}
    (canonical : types.Canonical) (held : ∀ ty ∈ construction.uses, types.Holds ty) :
    Builds construction.run types TypeStore.Holds := by
  have parts : ∀ {args : List TypeId} {outer : Option TypeId},
      (∀ ty ∈ args ++ outer.toList, types.Holds ty) →
        (∀ ty ∈ args, types.Holds ty) ∧ ∀ ty ∈ outer, types.Holds ty :=
    fun held => ⟨fun ty member => held ty (List.mem_append_left _ member),
      fun ty member => held ty (List.mem_append_right _ (Option.mem_toList.mpr member))⟩
  cases construction with
  | intern layer => exact .intern canonical held
  | formal id => exact .formal canonical id false
  | applied feature args outer isRef =>
    exact .applied canonical feature isRef false (parts held).1 (parts held).2
  | rebuild ty args outer =>
    obtain ⟨tyHeld, partsHeld⟩ := List.forall_mem_cons.mp held
    exact .rebuild canonical tyHeld (parts partsHeld).1 (parts partsHeld).2
  | asRef ty => exact .withRef canonical (held ty (List.mem_singleton.mpr rfl)) true
  | asValue ty => exact .withRef canonical (held ty (List.mem_singleton.mpr rfl)) false
  | asThis ty => exact .asThis canonical (held ty (List.mem_singleton.mpr rfl))
  | shiftFormals source target offset ty =>
    exact .shiftFormals canonical source target offset (held ty (List.mem_singleton.mpr rfl))
  | selfType id => exact .selfTypeWithin canonical _ id
  | instantiate id args => exact .instantiate canonical id held

end FeatureTypes.Checker

namespace FeatureTypes.TypeStore

open Checker

/-! ## Stores that calls lead to -/

def afterRun {α : Type} : EStateM.Result Failure Checker α → TypeStore
  | .ok _ after | .error _ after => after.types

/-- The store is what some calls that make types have made of the initial one.  Each
call uses stored types, and is made with whatever features are declared then. -/
inductive Reached : TypeStore → Prop
  | initial : Reached .initial
  | construct {checker : Checker} (reached : Reached checker.types) (construction : Construction)
      (held : ∀ ty ∈ construction.uses, checker.types.Holds ty) :
      Reached (afterRun (construction.run.run checker))

theorem afterRun_construction {checker : Checker} (canonical : checker.types.Canonical)
    {construction : Construction} (held : ∀ ty ∈ construction.uses, checker.types.Holds ty) :
    checker.types.Extends (afterRun (construction.run.run checker)) ∧
      (afterRun (construction.run.run checker)).Canonical := by
  have built := construction.builds canonical held checker rfl
  cases run : construction.run.run checker with
  | ok result after =>
    simp only [run] at built
    exact ⟨built.1, built.2.1⟩
  | error failure after =>
    simp only [run] at built
    exact built

theorem Reached.canonical {types : TypeStore} (reached : Reached types) : types.Canonical := by
  induction reached with
  | initial => exact initial_canonical
  | construct _ construction held canonical => exact (afterRun_construction canonical held).2

/-- Numbers are canonical: in every store that is reached, parts come before wholes,
equal numbers are equal types, the first three numbers are fixed, interning a stored
type changes nothing, and no call changes what an earlier number stands for. -/
theorem Reached.numbers_canonical {types : TypeStore} (reached : Reached types) :
    (∀ ty, types.Holds ty → ∀ child ∈ (types.node ty).children, child.index < ty.index) ∧
    (∀ left right, types.Holds left → types.Holds right →
      (left = right ↔ types.tree left = types.tree right)) ∧
    (types.tree ⟨0⟩ = .error ∧ types.tree ⟨1⟩ = .void ∧ types.tree ⟨2⟩ = .undefined) ∧
    (∀ ty, types.Holds ty → types.intern (types.node ty) = (ty, types)) ∧
    (∀ (checker : Checker) (construction : Construction), checker.types = types →
      (∀ ty ∈ construction.uses, types.Holds ty) → ∀ ty, types.Holds ty →
        (afterRun (construction.run.run checker)).Holds ty ∧
          (afterRun (construction.run.run checker)).node ty = types.node ty ∧
            (afterRun (construction.run.run checker)).flags ty = types.flags ty) := by
  have canonical := reached.canonical
  have coherent := canonical.toCoherent
  refine ⟨canonical.child_lt, ?_, ?_, ?_, ?_⟩
  · intro left right leftHeld rightHeld
    exact (tree_inj coherent leftHeld rightHeld).symm
  · exact ⟨canonical.tree_error, canonical.tree_void, canonical.tree_undefined⟩
  · intro ty held
    exact intern_node coherent held
  · rintro checker construction rfl held ty tyHeld
    obtain ⟨extension, _⟩ := afterRun_construction canonical held
    exact ⟨extension.holds tyHeld, extension.node_eq tyHeld, extension.flags_eq tyHeld⟩

theorem Reached.numbers_canonical_shifted :
    let formals := afterRun ((Construction.formal ⟨⟨1⟩, 0⟩).run.run {})
    let lists := afterRun
      ((Construction.applied ⟨1⟩ [⟨3⟩] none true).run.run { types := formals })
    let types := afterRun
      ((Construction.shiftFormals ⟨1⟩ ⟨2⟩ 1 ⟨4⟩).run.run { types := lists })
    let later := afterRun ((Construction.asThis ⟨6⟩).run.run { types })
    Reached types ∧ types.Holds ⟨4⟩ ∧ types.Holds ⟨6⟩ ∧
      types.node ⟨6⟩ = .applied ⟨1⟩ [⟨5⟩] none true false ∧
      types.tree ⟨4⟩ ≠ types.tree ⟨6⟩ ∧ types.tree ⟨0⟩ = .error ∧
      types.intern (types.node ⟨6⟩) = (⟨6⟩, types) ∧
      types.size < later.size ∧ later.node ⟨6⟩ = types.node ⟨6⟩ := by
  intro formals lists types later
  have reachedFormals : Reached formals :=
    @Reached.construct {} .initial (.formal ⟨⟨1⟩, 0⟩) (by decide)
  have reachedLists : Reached lists :=
    @Reached.construct { types := formals } reachedFormals (.applied ⟨1⟩ [⟨3⟩] none true)
      (by decide +kernel)
  have reached : Reached types :=
    @Reached.construct { types := lists } reachedLists (.shiftFormals ⟨1⟩ ⟨2⟩ 1 ⟨4⟩)
      (by decide +kernel)
  have held : types.Holds ⟨4⟩ ∧ types.Holds ⟨6⟩ := by decide +kernel
  obtain ⟨_, identity, fixed, interned, kept⟩ := reached.numbers_canonical
  refine ⟨reached, held.1, held.2, by decide +kernel, ?_, fixed.1, interned ⟨6⟩ held.2,
    by decide +kernel, ?_⟩
  · exact mt (identity ⟨4⟩ ⟨6⟩ held.1 held.2).mpr (by decide)
  · exact (kept { types } (.asThis ⟨6⟩) rfl (by decide +kernel) ⟨6⟩ held.2).2.1

end FeatureTypes.TypeStore

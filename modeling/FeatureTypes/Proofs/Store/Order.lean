import FeatureTypes.Proofs.Feature.Growth
import FeatureTypes.Proofs.Store.Tree
import FeatureTypes.Proofs.Ty.Order

/-!
# The order of numbered types

Looking at shared parts only once does not change the order, since the order of trees ties
on equal trees alone.
-/

namespace FeatureTypes

/-! ## Declared features -/

/-- The feature that a type names by itself. -/
def Ty.feature? : Ty → Option FeatureId
  | .formal id _ => some id.feature
  | .applied feature _ _ _ _ => some feature
  | _ => none

/-- Every feature in a type is declared. -/
def Ty.Declared (table : FeatureTable) (ty : Ty) : Prop :=
  ∀ part ∈ ty.parts, ∀ id ∈ part.feature?, id.index < table.size

namespace FeatureTable

variable {table : FeatureTable}

theorem get_of_lt {id : FeatureId} (bound : id.index < table.size) :
    ∃ declared, table.get id = .ok declared :=
  ⟨table.features[id.index], get_eq_ok_iff.mpr (Array.getElem?_eq_getElem bound)⟩

theorem compare_eq {left right : FeatureId} (leftBound : left.index < table.size)
    (rightBound : right.index < table.size) :
    table.compare left right = .ok (table.orderFeatures left right) := by
  obtain ⟨declared, found⟩ := get_of_lt leftBound
  obtain ⟨declared', found'⟩ := get_of_lt rightBound
  simp only [compare, orderFeatures, nameKey, found, found']
  rfl

theorem formalName_of_lt {id : FormalId} (bound : id.feature.index < table.size) :
    table.formalName id = .ok (table.formalKey id) := by
  obtain ⟨declared, found⟩ := get_of_lt bound
  have named : ∃ name, table.formalName id = .ok name := by
    have looked : table.formal? id = .ok declared.formals[id.index]? := by
      rw [formal?, found]
      rfl
    rw [formalName, looked]
    cases declared.formals[id.index]? with
    | none => exact ⟨_, rfl⟩
    | some formal => exact ⟨_, rfl⟩
  obtain ⟨name, nameEq⟩ := named
  rw [formalKey, nameEq]

theorem compareFormals_eq {left right : FormalId} (leftBound : left.feature.index < table.size)
    (rightBound : right.feature.index < table.size) (leftBoxed rightBoxed : Bool) :
    table.compareFormals left right leftBoxed rightBoxed =
      .ok (table.orderFormals left right leftBoxed rightBoxed) := by
  simp only [compareFormals, compare_eq leftBound rightBound, formalName_of_lt leftBound,
    formalName_of_lt rightBound]
  rfl

end FeatureTable

/-! ## Numbered types -/

namespace TypeStore

variable {store : TypeStore} {table : FeatureTable}

private theorem byKey_eq {decided : Prop} [Decidable decided] {key rest : Ordering}
    {later : Except Failure Ordering} (decides : decided ↔ key ≠ .eq) (laterEq : later = .ok rest) :
    (if decided then pure key else later) = .ok (key.then rest) := by
  by_cases tie : key = .eq
  · rw [if_neg (by simp [decides, tie]), laterEq, tie, Ordering.eq_then]
  · rw [if_pos (decides.mpr tie), then_of_ne_eq tie]
    rfl

theorem compareArgs_eq {cmp : Comparison} {left right : List TypeId}
    (agree : ∀ ty ∈ left, ∀ ty' ∈ right,
      cmp ty ty' = .ok (Ty.order table (store.tree ty) (store.tree ty'))) :
    compareArgs cmp left right =
      .ok (Ty.orderList table (left.map store.tree) (right.map store.tree)) := by
  induction left generalizing right with
  | nil => rfl
  | cons ty rest ih =>
    cases right with
    | nil => rfl
    | cons ty' rest' =>
      have first := agree ty List.mem_cons_self ty' List.mem_cons_self
      have others := ih fun other member other' member' =>
        agree other (List.mem_cons_of_mem _ member) other' (List.mem_cons_of_mem _ member')
      simp only [compareArgs, first, List.map_cons, Ty.orderList]
      exact byKey_eq Iff.rfl others

theorem compareOuter_eq {cmp : Comparison} {left right : Option TypeId}
    (agree : ∀ ty, left = some ty → ∀ ty', right = some ty' →
      cmp ty ty' = .ok (Ty.order table (store.tree ty) (store.tree ty'))) :
    compareOuter cmp left right =
      .ok (Ty.orderOption table (left.map store.tree) (right.map store.tree)) := by
  cases left with
  | none => cases right <;> rfl
  | some ty =>
    cases right with
    | none => rfl
    | some ty' => exact agree ty rfl ty' rfl

theorem declared_child (coherent : store.Coherent) {ty child : TypeId} (held : store.Holds ty)
    (declared : (store.tree ty).Declared table) (member : child ∈ (store.node ty).children) :
    (store.tree child).Declared table := by
  intro part occurs
  apply declared part
  rw [tree_eq coherent held]
  exact Node.mem_parts_toTy member occurs

/-- One layer, given that the parts are ordered as trees. -/
theorem compareWithin_succ (coherent : store.Coherent) {depth : Nat} {left right : TypeId}
    (leftHeld : store.Holds left) (rightHeld : store.Holds right)
    (leftDeclared : (store.tree left).Declared table)
    (rightDeclared : (store.tree right).Declared table)
    (parts : ∀ child ∈ (store.node left).children, ∀ child' ∈ (store.node right).children,
      store.compareWithin table depth false child child' =
        .ok (Ty.order table (store.tree child) (store.tree child'))) (skipOuter : Bool) :
    store.compareWithin table (depth + 1) skipOuter left right =
      .ok (Ty.order table ((store.tree left).withoutOuter skipOuter)
        ((store.tree right).withoutOuter skipOuter)) := by
  rw [compareWithin]
  split
  next same => rw [same, (Ty.order_eq_iff table _ _).mpr rfl]
  next different =>
    have leftSelf := leftDeclared _ (Ty.self_mem_parts _)
    have rightSelf := rightDeclared _ (Ty.self_mem_parts _)
    rw [tree_eq coherent leftHeld] at leftSelf ⊢
    rw [tree_eq coherent rightHeld] at rightSelf ⊢
    generalize store.node left = layer at parts leftSelf ⊢
    generalize store.node right = layer' at parts rightSelf ⊢
    cases layer with
    | formal id boxed =>
      cases layer' with
      | formal id' boxed' =>
        exact FeatureTable.compareFormals_eq (leftSelf _ rfl) (rightSelf _ rfl) _ _
      | _ => rfl
    | applied feature args outer isRef isThis =>
      cases layer' with
      | applied feature' args' outer' isRef' isThis' =>
        have argsEq : compareArgs (store.compareWithin table depth false) args args' =
            .ok (Ty.orderList table (args.map store.tree) (args'.map store.tree)) :=
          compareArgs_eq fun arg member arg' member' =>
            parts arg (List.mem_append_left _ member) arg'
              (List.mem_append_left _ member')
        have outerEq : compareOuter (store.compareWithin table depth false) outer outer' =
            .ok (Ty.orderOption table (outer.map store.tree) (outer'.map store.tree)) :=
          compareOuter_eq fun around present around' present' =>
            parts around (List.mem_append_right _ (by simp [present])) around'
              (List.mem_append_right _ (by simp [present']))
        simp only [FeatureTable.compare_eq (leftSelf _ rfl) (rightSelf _ rfl), argsEq,
          outerEq, Node.toTy, Ty.withoutOuter, Ty.order, List.length_map]
        have lengthTest := not_congr (@Std.LawfulEqOrd.compare_eq_iff_eq Nat _ _
          args.length args'.length).symm
        refine byKey_eq Iff.rfl <| byKey_eq lengthTest <| byKey_eq Iff.rfl ?_
        cases skipOuter with
        | false => exact byKey_eq (by simp) rfl
        | true => simp [Ty.orderOption, pure, Except.pure]
      | _ => rfl
    | _ => cases layer' <;> rfl

theorem withoutOuter_tree_eq_iff (coherent : store.Coherent) {left right : TypeId}
    (leftHeld : store.Holds left) (rightHeld : store.Holds right) :
    (store.tree left).withoutOuter true = (store.tree right).withoutOuter true ↔
      left = right ∨ ∃ feature args outer outer' isRef isThis,
        store.node left = .applied feature args outer isRef isThis ∧
          store.node right = .applied feature args outer' isRef isThis := by
  constructor
  · intro same
    rw [← tree_inj coherent leftHeld rightHeld]
    have leftParts : ∀ child ∈ (store.node left).children, store.Holds child :=
      fun _ => coherent.child_holds leftHeld
    have rightParts : ∀ child ∈ (store.node right).children, store.Holds child :=
      fun _ => coherent.child_holds rightHeld
    rw [tree_eq coherent leftHeld, tree_eq coherent rightHeld] at same ⊢
    cases leftNode : store.node left with
    | applied feature args outer isRef isThis =>
      cases rightNode : store.node right with
      | applied feature' args' outer' isRef' isThis' =>
        rw [leftNode] at same leftParts
        rw [rightNode] at same rightParts
        simp only [Node.toTy, Ty.withoutOuter, if_true, Ty.applied.injEq, true_and] at same
        obtain ⟨rfl, argsEq, rfl, rfl⟩ := same
        obtain rfl : args = args' := eq_of_map_eq (fun arg member arg' member' =>
          tree_injective coherent (leftParts arg (List.mem_append_left _ member))
            (rightParts arg' (List.mem_append_left _ member'))) argsEq
        exact Or.inr ⟨feature, args, outer, outer', isRef, isThis, rfl, rfl⟩
      | _ => simp [leftNode, rightNode, Node.toTy, Ty.withoutOuter] at same
    | _ => cases rightNode : store.node right <;> simp_all [Node.toTy, Ty.withoutOuter]
  · rintro (rfl | ⟨feature, args, outer, outer', isRef, isThis, leftNode, rightNode⟩)
    · rfl
    · rw [tree_eq coherent leftHeld, tree_eq coherent rightHeld, leftNode, rightNode]
      rfl

section

variable (coherent : store.Coherent) {depth : Nat} {left right : TypeId}
  (leftHeld : store.Holds left) (rightHeld : store.Holds right)
  (leftDeclared : (store.tree left).Declared table)
  (rightDeclared : (store.tree right).Declared table)

include coherent leftHeld rightHeld leftDeclared rightDeclared

theorem compareWithin_eq (bound : left.index < depth) :
    store.compareWithin table depth false left right =
      .ok (Ty.order table (store.tree left) (store.tree right)) := by
  induction depth generalizing left right with
  | zero => exact absurd bound (Nat.not_lt_zero _)
  | succ depth ih =>
    rw [compareWithin_succ coherent leftHeld rightHeld leftDeclared rightDeclared ?_ false,
      Ty.withoutOuter_false, Ty.withoutOuter_false]
    intro child member child' member'
    have smaller := coherent.child_lt left leftHeld child member
    exact ih (coherent.child_holds leftHeld member) (coherent.child_holds rightHeld member')
      (declared_child coherent leftHeld leftDeclared member)
      (declared_child coherent rightHeld rightDeclared member') (by omega)

theorem compareIgnoringOuter_eq :
    store.compareIgnoringOuter table left right =
      .ok (Ty.order table ((store.tree left).withoutOuter true)
        ((store.tree right).withoutOuter true)) := by
  refine compareWithin_succ coherent leftHeld rightHeld leftDeclared rightDeclared ?_ true
  intro child member child' member'
  exact compareWithin_eq coherent (coherent.child_holds leftHeld member)
    (coherent.child_holds rightHeld member')
    (declared_child coherent leftHeld leftDeclared member)
    (declared_child coherent rightHeld rightDeclared member')
    (coherent.child_lt left leftHeld child member)

end

end TypeStore

end FeatureTypes

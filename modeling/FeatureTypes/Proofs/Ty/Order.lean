import FeatureTypes.Ty.Order
import FeatureTypes.Proofs.Ty.Parts
import Std.Data.TreeMap.Lemmas

/-!
# The order of types as trees

The order is lexicographic, so its laws follow from those of its keys, with the orders of
the parts among them.
-/

namespace FeatureTypes

/-! ## Lexicographic orders -/

/-- The order of the first and third of three values fits that of the first two and
that of the last two. -/
structure Consistent (first second whole : Ordering) : Prop where
  lt_trans : first = .lt → second = .lt → whole = .lt
  eq_left : first = .eq → whole = second
  eq_right : second = .eq → whole = first

namespace Consistent

theorem of_transCmp {α : Type} {cmp : α → α → Ordering} [Std.TransCmp cmp] (a b c : α) :
    Consistent (cmp a b) (cmp b c) (cmp a c) where
  lt_trans := Std.TransCmp.lt_trans
  eq_left same := Std.TransCmp.congr_left same
  eq_right same := (Std.TransCmp.congr_right same).symm

theorem lex {first second whole first' second' whole' : Ordering}
    (major : Consistent first second whole)
    (minor : first = .eq → second = .eq → Consistent first' second' whole') :
    Consistent (first.then first') (second.then second') (whole.then whole') where
  lt_trans := by
    intro firstLt secondLt
    rcases Ordering.then_eq_lt.mp firstLt with majorLt | ⟨majorEq, minorLt⟩
    · rcases Ordering.then_eq_lt.mp secondLt with majorLt' | ⟨majorEq', _⟩
      · rw [major.lt_trans majorLt majorLt', Ordering.lt_then]
      · rw [major.eq_right majorEq', majorLt, Ordering.lt_then]
    · rw [major.eq_left majorEq]
      rcases Ordering.then_eq_lt.mp secondLt with majorLt' | ⟨majorEq', minorLt'⟩
      · rw [majorLt', Ordering.lt_then]
      · rw [majorEq', Ordering.eq_then, (minor majorEq majorEq').lt_trans minorLt minorLt']
  eq_left := by
    intro same
    obtain ⟨majorEq, minorEq⟩ := Ordering.then_eq_eq.mp same
    rw [major.eq_left majorEq]
    cases second with
    | eq => rw [(minor majorEq rfl).eq_left minorEq]
    | lt => rfl
    | gt => rfl
  eq_right := by
    intro same
    obtain ⟨majorEq, minorEq⟩ := Ordering.then_eq_eq.mp same
    rw [major.eq_right majorEq]
    cases first with
    | eq => rw [(minor rfl majorEq).eq_right minorEq]
    | lt => rfl
    | gt => rfl

theorem isLE_trans {first second whole : Ordering} (consistent : Consistent first second whole)
    (firstLE : first.isLE = true) (secondLE : second.isLE = true) : whole.isLE = true := by
  cases first with
  | eq => rwa [consistent.eq_left rfl]
  | lt =>
    cases second with
    | eq => rwa [consistent.eq_right rfl]
    | lt => exact consistent.lt_trans rfl rfl ▸ rfl
    | gt => cases secondLE
  | gt => cases firstLE

theorem reverse {first second whole : Ordering} (consistent : Consistent first second whole) :
    Consistent second first whole where
  lt_trans less less' := consistent.lt_trans less' less
  eq_left := consistent.eq_right
  eq_right := consistent.eq_left

theorem eq : Consistent .eq .eq .eq :=
  ⟨fun less _ => less, fun _ => rfl, fun _ => rfl⟩

end Consistent

/-! ## Keys -/

namespace FeatureTable

def nameKey (table : FeatureTable) (id : FeatureId) : String :=
  match table.get id with
  | .ok declared => declared.qualifiedName
  | .error _ => ""

def formalKey (table : FeatureTable) (id : FormalId) : String :=
  match table.formalName id with
  | .ok name => name
  | .error _ => ""

def orderFeatures (table : FeatureTable) (left right : FeatureId) : Ordering :=
  (Ord.compare (table.nameKey left) (table.nameKey right)).then (Ord.compare left.index right.index)

def orderFormals (table : FeatureTable) (left right : FormalId) (leftBoxed rightBoxed : Bool) :
    Ordering :=
  (table.orderFeatures left.feature right.feature).then <|
    (Ord.compare (table.formalKey left) (table.formalKey right)).then <|
      (Ord.compare left.index right.index).then (Ord.compare rightBoxed leftBoxed)

end FeatureTable

namespace Ty

/-- The place of each kind of type in the order. -/
def rank : Ty → Nat
  | .error => 0
  | .void => 1
  | .undefined => 2
  | .formal _ _ => 3
  | .applied _ _ _ _ _ => 4

mutual

/-- The order of two types. -/
def order (table : FeatureTable) : Ty → Ty → Ordering
  | .formal id boxed, .formal id' boxed' => table.orderFormals id id' boxed boxed'
  | .applied feature args outer isRef isThis, .applied feature' args' outer' isRef' isThis' =>
    (table.orderFeatures feature feature').then <|
      (Ord.compare args.length args'.length).then <|
        (orderList table args args').then <|
          ((Ord.compare isRef' isRef).then (Ord.compare isThis' isThis)).then
            (orderOption table outer outer')
  | ty, ty' => Ord.compare ty.rank ty'.rank

/-- The order of two lists of the same length: that of the first two elements that
differ. -/
def orderList (table : FeatureTable) : List Ty → List Ty → Ordering
  | ty :: rest, ty' :: rest' => (order table ty ty').then (orderList table rest rest')
  | _, _ => .eq

/-- The order of two optional types.  A missing one comes first. -/
def orderOption (table : FeatureTable) : Option Ty → Option Ty → Ordering
  | none, none => .eq
  | none, some _ => .lt
  | some _, none => .gt
  | some ty, some ty' => order table ty ty'

end

end Ty

theorem then_of_ne_eq {key : Ordering} (decides : key ≠ .eq) (rest : Ordering) :
    key.then rest = key := by
  cases key with
  | eq => exact absurd rfl decides
  | lt => rfl
  | gt => rfl

namespace Ty

/-- The type, without its own outer type if that is to be skipped. -/
def withoutOuter (skip : Bool) : Ty → Ty
  | .applied feature args outer isRef isThis =>
    .applied feature args (if skip then none else outer) isRef isThis
  | ty => ty

theorem withoutOuter_false (ty : Ty) : ty.withoutOuter false = ty := by
  cases ty <;> rfl

/-- Outer types decide only between types that tie without theirs. -/
theorem order_of_withoutOuter_ne (table : FeatureTable) {left right : Ty}
    (differs : order table (left.withoutOuter true) (right.withoutOuter true) ≠ .eq) :
    order table left right = order table (left.withoutOuter true) (right.withoutOuter true) := by
  cases left with
  | applied feature args outer isRef isThis =>
    cases right with
    | applied feature' args' outer' isRef' isThis' =>
      simp only [withoutOuter, if_true, order, orderOption, Ordering.then_eq] at differs ⊢
      simp only [← Ordering.then_assoc] at differs ⊢
      exact then_of_ne_eq differs _
    | _ => rfl
  | _ => cases right <;> rfl

end Ty

/-! ## Laws of the keys -/

section Keys

variable (table : FeatureTable)

theorem orderFeatures_eq_iff {left right : FeatureId} :
    table.orderFeatures left right = .eq ↔ left = right := by
  constructor
  · intro same
    obtain ⟨_, indexEq⟩ := Ordering.then_eq_eq.mp same
    exact congrArg FeatureId.mk (Std.LawfulEqOrd.compare_eq_iff_eq.mp indexEq)
  · rintro rfl
    simp [FeatureTable.orderFeatures]

theorem orderFormals_eq_iff {left right : FormalId} {leftBoxed rightBoxed : Bool} :
    table.orderFormals left right leftBoxed rightBoxed = .eq ↔
      left = right ∧ leftBoxed = rightBoxed := by
  constructor
  · intro same
    obtain ⟨feature, position⟩ := left
    obtain ⟨feature', position'⟩ := right
    simp only [FeatureTable.orderFormals, Ordering.then_eq_eq, orderFeatures_eq_iff,
      Std.LawfulEqOrd.compare_eq_iff_eq] at same
    obtain ⟨rfl, _, rfl, rfl⟩ := same
    exact ⟨rfl, rfl⟩
  · rintro ⟨rfl, rfl⟩
    simp [FeatureTable.orderFormals, (orderFeatures_eq_iff table).mpr]

theorem orderFeatures_swap (left right : FeatureId) :
    table.orderFeatures right left = (table.orderFeatures left right).swap := by
  rw [FeatureTable.orderFeatures, FeatureTable.orderFeatures, Ordering.swap_then,
    ← Std.OrientedOrd.eq_swap, ← Std.OrientedOrd.eq_swap]

theorem orderFormals_swap (left right : FormalId) (leftBoxed rightBoxed : Bool) :
    table.orderFormals right left rightBoxed leftBoxed =
      (table.orderFormals left right leftBoxed rightBoxed).swap := by
  simp only [FeatureTable.orderFormals, Ordering.swap_then, ← Std.OrientedOrd.eq_swap,
    ← orderFeatures_swap]

theorem orderFeatures_consistent (first second third : FeatureId) :
    Consistent (table.orderFeatures first second) (table.orderFeatures second third)
      (table.orderFeatures first third) :=
  .lex (.of_transCmp _ _ _) fun _ _ => .of_transCmp _ _ _

theorem orderFormals_consistent (first second third : FormalId)
    (firstBoxed secondBoxed thirdBoxed : Bool) :
    Consistent (table.orderFormals first second firstBoxed secondBoxed)
      (table.orderFormals second third secondBoxed thirdBoxed)
      (table.orderFormals first third firstBoxed thirdBoxed) :=
  .lex (orderFeatures_consistent table _ _ _) fun _ _ => .lex (.of_transCmp _ _ _) fun _ _ =>
    .lex (.of_transCmp _ _ _) fun _ _ => .reverse (.of_transCmp _ _ _)

end Keys

/-! ## Laws of the order -/

namespace Ty

variable (table : FeatureTable)

section Equality

theorem orderList_eq_iff {left right : List Ty}
    (partsEq : ∀ ty ∈ left, ∀ ty', order table ty ty' = .eq ↔ ty = ty')
    (lengthEq : left.length = right.length) : orderList table left right = .eq ↔ left = right := by
  induction left generalizing right with
  | nil =>
    rw [List.length_nil, eq_comm, List.length_eq_zero_iff] at lengthEq
    simp [lengthEq, orderList]
  | cons ty rest ih =>
    cases right with
    | nil => cases lengthEq
    | cons ty' rest' =>
      rw [List.forall_mem_cons] at partsEq
      rw [orderList, Ordering.then_eq_eq, partsEq.1,
        ih partsEq.2 (Nat.succ.inj lengthEq), List.cons.injEq]

theorem orderOption_eq_iff {left right : Option Ty}
    (partsEq : ∀ ty, left = some ty → ∀ ty', order table ty ty' = .eq ↔ ty = ty') :
    orderOption table left right = .eq ↔ left = right := by
  cases left <;> cases right <;> simp_all [orderOption]

/-- Only equal trees tie. -/
theorem order_eq_iff (left right : Ty) : order table left right = .eq ↔ left = right := by
  induction left generalizing right with
  | error => cases right <;> simp [order, rank]
  | void => cases right <;> simp [order, rank]
  | undefined => cases right <;> simp [order, rank]
  | formal id boxed => cases right <;> simp [order, rank, orderFormals_eq_iff]
  | applied feature args outer isRef isThis argsEq outerEq =>
    cases right with
    | applied feature' args' outer' isRef' isThis' =>
      rw [applied.injEq, order]
      simp only [Ordering.then_eq_eq, orderFeatures_eq_iff,
        Std.LawfulEqOrd.compare_eq_iff_eq, orderOption_eq_iff table outerEq]
      constructor
      · rintro ⟨featureEq, lengthEq, listEq, ⟨refEq, thisEq⟩, outerSame⟩
        exact ⟨featureEq, (orderList_eq_iff table argsEq lengthEq).mp listEq, outerSame,
          refEq.symm, thisEq.symm⟩
      · rintro ⟨featureEq, rfl, outerSame, rfl, rfl⟩
        exact ⟨featureEq, rfl, (orderList_eq_iff table argsEq rfl).mpr rfl, ⟨rfl, rfl⟩,
          outerSame⟩
    | _ => simp [order, rank]

end Equality

section Antisymmetry

theorem orderList_swap (left right : List Ty)
    (partsSwap : ∀ ty ∈ left, ∀ ty', order table ty' ty = (order table ty ty').swap) :
    orderList table right left = (orderList table left right).swap := by
  induction left generalizing right with
  | nil => cases right <;> rfl
  | cons ty rest ih =>
    cases right with
    | nil => rfl
    | cons ty' rest' =>
      rw [List.forall_mem_cons] at partsSwap
      rw [orderList, orderList, Ordering.swap_then, partsSwap.1,
        ih rest' partsSwap.2]

theorem orderOption_swap (left right : Option Ty)
    (partsSwap : ∀ ty, left = some ty → ∀ ty', order table ty' ty = (order table ty ty').swap) :
    orderOption table right left = (orderOption table left right).swap := by
  cases left <;> cases right <;> simp_all [orderOption]

theorem order_swap (left right : Ty) : order table right left = (order table left right).swap := by
  induction left generalizing right with
  | error => cases right <;> rfl
  | void => cases right <;> rfl
  | undefined => cases right <;> rfl
  | formal id boxed =>
    cases right with
    | formal id' boxed' => exact orderFormals_swap table id id' boxed boxed'
    | _ => rfl
  | applied feature args outer isRef isThis argsSwap outerSwap =>
    cases right with
    | applied feature' args' outer' isRef' isThis' =>
      simp only [order, Ordering.swap_then, orderFeatures_swap table feature feature',
        orderList_swap table args args' argsSwap,
        orderOption_swap table outer outer' outerSwap, ← Std.OrientedOrd.eq_swap]
    | _ => rfl

end Antisymmetry

section Transitivity

theorem orderList_consistent (first second third : List Ty)
    (parts : ∀ ty ∈ first, ∀ ty' ty'',
      Consistent (order table ty ty') (order table ty' ty'') (order table ty ty''))
    (lengthEq : first.length = second.length) (lengthEq' : second.length = third.length) :
    Consistent (orderList table first second) (orderList table second third)
      (orderList table first third) := by
  induction first generalizing second third with
  | nil =>
    cases second with
    | nil => cases third with
      | nil => exact .eq
      | cons => cases lengthEq'
    | cons => cases lengthEq
  | cons ty rest ih =>
    cases second with
    | nil => cases lengthEq
    | cons ty' rest' =>
      cases third with
      | nil => cases lengthEq'
      | cons ty'' rest'' =>
        rw [List.forall_mem_cons] at parts
        exact .lex (parts.1 ty' ty'') <|
          fun _ _ => ih rest' rest'' parts.2 (Nat.succ.inj lengthEq)
            (Nat.succ.inj lengthEq')

theorem orderOption_consistent (first second third : Option Ty)
    (parts : ∀ ty, first = some ty → ∀ ty' ty'',
      Consistent (order table ty ty') (order table ty' ty'') (order table ty ty'')) :
    Consistent (orderOption table first second) (orderOption table second third)
      (orderOption table first third) := by
  cases first with
  | none =>
    cases second <;> cases third <;> constructor <;> simp [orderOption]
  | some ty =>
    cases second with
    | none => cases third <;> constructor <;> simp [orderOption]
    | some ty' =>
      cases third with
      | none => constructor <;> simp [orderOption]
      | some ty'' => exact parts ty rfl ty' ty''

/-- The order is transitive, ties included. -/
theorem order_consistent (first second third : Ty) :
    Consistent (order table first second) (order table second third)
      (order table first third) := by
  induction first generalizing second third with
  | error => cases second <;> cases third <;> constructor <;> simp [order, rank, Nat.compare_eq_lt]
  | void => cases second <;> cases third <;> constructor <;> simp [order, rank, Nat.compare_eq_lt]
  | undefined =>
    cases second <;> cases third <;> constructor <;> simp [order, rank, Nat.compare_eq_lt]
  | formal id boxed =>
    cases second with
    | formal id' boxed' =>
      cases third with
      | formal id'' boxed'' =>
        exact orderFormals_consistent table id id' id'' boxed boxed' boxed''
      | _ => constructor <;> simp [order, rank, Nat.compare_eq_lt]
    | _ => cases third <;> constructor <;> simp [order, rank, Nat.compare_eq_lt]
  | applied feature args outer isRef isThis argsParts outerParts =>
    cases second with
    | applied feature' args' outer' isRef' isThis' =>
      cases third with
      | applied feature'' args'' outer'' isRef'' isThis'' =>
        refine .lex (orderFeatures_consistent table _ _ _) fun _ _ => ?_
        refine .lex (.of_transCmp _ _ _) fun lengthEq lengthEq' => ?_
        refine .lex (orderList_consistent table args args' args'' argsParts
          (Std.LawfulEqOrd.compare_eq_iff_eq.mp lengthEq)
          (Std.LawfulEqOrd.compare_eq_iff_eq.mp lengthEq')) fun _ _ => ?_
        refine .lex (.lex (.reverse (.of_transCmp _ _ _))
          fun _ _ => .reverse (.of_transCmp _ _ _)) fun _ _ => ?_
        exact orderOption_consistent table outer outer' outer'' outerParts
      | _ => constructor <;> simp [order, rank, Nat.compare_eq_lt]
    | _ => cases third <;> constructor <;> simp [order, rank, Nat.compare_eq_lt]

end Transitivity

end Ty

end FeatureTypes

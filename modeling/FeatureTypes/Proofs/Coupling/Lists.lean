import FeatureTypes.Proofs.Coupling.Basic

/-!
# Coupled lists and queries
-/

namespace FeatureTypes

variable {α β : Type}

/-! ## Relations on lists, options and layers -/

section Relations

variable {same same' : TypeId → TypeId → Prop}

theorem option_rel_imp {relation relation' : α → β → Prop} {left : Option α} {right : Option β}
    (weaker : ∀ a b, relation a b → relation' a b) (related : Option.Rel relation left right) :
    Option.Rel relation' left right := by
  cases related with
  | none => exact Option.Rel.none
  | some holds => exact Option.Rel.some (weaker _ _ holds)

theorem Formal.Related.imp {formal formal' : Formal} (weaker : ∀ ty ty', same ty ty' → same' ty ty')
    (related : Formal.Related same formal formal') : Formal.Related same' formal formal' :=
  { related with constraint_same := weaker _ _ related.constraint_same }

theorem Parent.Related.imp {parent parent' : Parent} (weaker : ∀ ty ty', same ty ty' → same' ty ty')
    (related : Parent.Related same parent parent') : Parent.Related same' parent parent' :=
  { related with
    actuals_same := related.actuals_same.imp weaker
    ty_same := weaker _ _ related.ty_same }

theorem forall₂_eq_iff
    (exact : ∀ {left left' right right'}, same left left' → same right right' →
      (left = right ↔ left' = right')) {left left' right right' : List TypeId}
    (leftSame : List.Forall₂ same left left') (rightSame : List.Forall₂ same right right') :
    left = right ↔ left' = right' := by
  induction leftSame generalizing right right' with
  | nil => cases rightSame <;> simp
  | cons headSame _ ih =>
    cases rightSame with
    | nil => simp
    | cons otherSame othersSame =>
      rw [List.cons.injEq, List.cons.injEq, exact headSame otherSame,
        ih othersSame]

theorem option_rel_eq_iff
    (exact : ∀ {left left' right right'}, same left left' → same right right' →
      (left = right ↔ left' = right')) {left left' right right' : Option TypeId}
    (leftSame : Option.Rel same left left') (rightSame : Option.Rel same right right') :
    left = right ↔ left' = right' := by
  cases leftSame with
  | none => cases rightSame <;> simp
  | some headSame =>
    cases rightSame with
    | none => simp
    | some otherSame => simpa using exact headSame otherSame

/-- Layers are equal on both sides or on none, if their parts are. -/
theorem Node.Related.eq_iff
    (exact : ∀ {left left' right right'}, same left left' → same right right' →
      (left = right ↔ left' = right')) {left left' right right' : Node}
    (leftRelated : Node.Related same left left') (rightRelated : Node.Related same right right') :
    left = right ↔ left' = right' := by
  cases leftRelated with
  | applied feature isRef isThis sameArgs sameOuter =>
    cases rightRelated with
    | applied feature' isRef' isThis' sameArgs' sameOuter' =>
      rw [Node.applied.injEq, Node.applied.injEq, forall₂_eq_iff exact sameArgs sameArgs',
        option_rel_eq_iff exact sameOuter sameOuter']
    | _ => simp
  | _ => cases rightRelated <;> simp

theorem mem_iff_of_forall₂
    (exact : ∀ {left left' right right'}, same left left' → same right right' →
      (left = right ↔ left' = right')) {ty ty' : TypeId} {list list' : List TypeId}
    (tySame : same ty ty') (listSame : List.Forall₂ same list list') : ty ∈ list ↔ ty' ∈ list' := by
  induction listSame with
  | nil => simp
  | cons headSame _ ih =>
    rw [List.mem_cons, List.mem_cons, exact tySame headSame, ih]

variable {list : List α} {relation : α → β → Prop} {list' : List β}
  (related : List.Forall₂ relation list list')

include related

theorem forall₂_and_mem {left : α → Prop} {right : β → Prop} (onLeft : ∀ a ∈ list, left a)
    (onRight : ∀ b ∈ list', right b) :
    List.Forall₂ (fun a b => relation a b ∧ left a ∧ right b) list list' := by
  induction related with
  | nil => exact .nil
  | cons headRelated _ ih =>
    rw [List.forall_mem_cons] at onLeft onRight
    exact .cons ⟨headRelated, onLeft.1, onRight.1⟩ (ih onLeft.2 onRight.2)

theorem option_rel_getElem? (position : Nat) :
    Option.Rel relation list[position]? list'[position]? := by
  induction related generalizing position with
  | nil => exact Option.Rel.none
  | cons headRelated _ ih =>
    cases position with
    | zero => simpa using Option.Rel.some headRelated
    | succ position => simpa using ih position

end Relations

namespace Coupling

open Checker

/-- A relation that goes on to hold in later worlds. -/
def Persistent (K : Coupling) {α β : Type} (relation : K.World → α → β → Prop) : Prop :=
  ∀ world world' a b, relation world a b → K.later world world' → relation world' a b

/-- What lasts for elements lasts for lists. -/
theorem Persistent.list {K : Coupling} {relation : K.World → α → β → Prop}
    (persistent : K.Persistent relation) :
    K.Persistent fun world => List.Forall₂ (relation world) :=
  fun _ _ _ _ related step => related.imp fun _ _ holds => persistent _ _ _ _ holds step

theorem Persistent.option {K : Coupling} {relation : K.World → α → β → Prop}
    (persistent : K.Persistent relation) : K.Persistent fun world => Option.Rel (relation world) :=
  fun _ _ _ _ related step =>
    option_rel_imp (fun _ _ holds => persistent _ _ _ _ holds step) related

namespace Core

variable {K : Coupling} (core : K.Core) {world world' : K.World}

include core

theorem same_persistent : K.Persistent K.same :=
  fun _ _ _ _ related step => core.same_later related step

theorem formal_persistent : K.Persistent fun world => Formal.Related (K.same world) :=
  fun _ _ _ _ related step => related.imp fun _ _ holds => core.same_later holds step

theorem parent_persistent : K.Persistent fun world => Parent.Related (K.same world) :=
  fun _ _ _ _ related step => related.imp fun _ _ holds => core.same_later holds step

theorem list_later {list list' : List TypeId} (related : List.Forall₂ (K.same world) list list')
    (step : K.later world world') : List.Forall₂ (K.same world') list list' :=
  core.same_persistent.list _ _ _ _ related step

theorem option_later {outer outer' : Option TypeId}
    (related : Option.Rel (K.same world) outer outer') (step : K.later world world') :
    Option.Rel (K.same world') outer outer' :=
  core.same_persistent.option _ _ _ _ related step

/-! ## Sequences of operations -/

theorem consequence {operation : CheckM α} {operation' : CheckM β}
    {relation relation' : K.World → α → β → Prop}
    (coupled : K.couples world operation operation' relation)
    (weaker : ∀ world' a b, K.later world world' → relation world' a b → relation' world' a b) :
    K.couples world operation operation' relation' := by
  have chained : K.couples world (operation >>= Pure.pure) (operation' >>= Pure.pure) relation' :=
    core.bind coupled fun world' a b step holds => core.pure (weaker world' a b step holds)
  rwa [bind_pure, bind_pure] at chained

/-- Both sides go on from one answer. -/
theorem bind_agrees {γ δ : Type} {operation operation' : CheckM α} {next : α → CheckM γ}
    {next' : α → CheckM δ} {relation : K.World → γ → δ → Prop}
    (coupled : K.couples world operation operation' K.Agrees)
    (further : ∀ world' result, K.later world world' →
      K.couples world' (next result) (next' result) relation) :
    K.couples world (operation >>= next) (operation' >>= next') relation := by
  refine core.bind coupled fun world' result result' step agree => ?_
  obtain rfl : result' = result := agree
  exact further world' _ step

/-- Visits of corresponding lists are coupled element by element. -/
theorem mapM {γ δ : Type} {operation : α → CheckM γ} {operation' : β → CheckM δ}
    {argument : K.World → α → β → Prop} {relation : K.World → γ → δ → Prop}
    (argumentPersistent : K.Persistent argument) (persistent : K.Persistent relation)
    {list : List α} {list' : List β} (related : List.Forall₂ (argument world) list list')
    (each : ∀ world' a b, K.later world world' → argument world' a b →
      K.couples world' (operation a) (operation' b) relation) :
    K.couples world (list.mapM operation) (list'.mapM operation')
      fun world' => List.Forall₂ (relation world') := by
  induction list generalizing world list' with
  | nil =>
    cases related
    simp only [List.mapM_nil]
    exact core.pure .nil
  | cons head tail ih =>
    obtain _ | ⟨headRelated, tailRelated⟩ := related
    simp only [List.mapM_cons]
    refine core.bind (each _ _ _ (core.later_refl _) headRelated) ?_
    intro world₁ first first' step₁ firstRelated
    have rest := ih
      (argumentPersistent.list _ _ _ _ tailRelated step₁)
      fun world' a b step holds => each world' a b (core.later_trans step₁ step) holds
    refine core.bind rest ?_
    intro world₂ others others' step₂ othersRelated
    exact core.pure (.cons (persistent _ _ _ _ firstRelated step₂) othersRelated)

theorem optionMapM {operation operation' : TypeId → CheckM TypeId} {outer outer' : Option TypeId}
    (related : Option.Rel (K.same world) outer outer')
    (each : ∀ ty ty', outer = some ty → outer' = some ty' → K.same world ty ty' →
      K.couples world (operation ty) (operation' ty') K.same) :
    K.couples world (outer.mapM operation) (outer'.mapM operation')
      fun world' => Option.Rel (K.same world') := by
  cases related with
  | none => exact core.pure Option.Rel.none
  | some tySame =>
    simp only [Option.mapM_some, map_eq_pure_bind]
    refine core.bind (each _ _ rfl rfl tySame) ?_
    intro world' result result' _ resultSame
    exact core.pure (Option.Rel.some resultSame)

variable {list : List α} {list' : List β} {argument : K.World → α → β → Prop}
  (persistent : K.Persistent argument) (related : List.Forall₂ (argument world) list list')

include persistent related

theorem forM {operation : α → CheckM PUnit} {operation' : β → CheckM PUnit}
    (each : ∀ world' a b, K.later world world' → argument world' a b →
      K.couples world' (operation a) (operation' b) K.Agrees) :
    K.couples world (list.forM operation) (list'.forM operation') K.Agrees := by
  induction list generalizing world list' with
  | nil =>
    cases related
    exact core.pure rfl
  | cons head tail ih =>
    obtain _ | ⟨headRelated, tailRelated⟩ := related
    simp only [List.forM_eq_forM, List.forM_cons] at ih ⊢
    refine core.bind_agrees (each _ _ _ (core.later_refl _) headRelated) ?_
    intro world₁ _ step₁
    exact ih (persistent.list _ _ _ _ tailRelated step₁)
      fun world' a b step holds => each world' a b (core.later_trans step₁ step) holds

theorem foldlM {operation : TypeId → α → CheckM TypeId} {operation' : TypeId → β → CheckM TypeId}
    {ty ty' : TypeId} (tySame : K.same world ty ty')
    (each : ∀ world' ty ty' a b, K.later world world' → K.same world' ty ty' → argument world' a b →
      K.couples world' (operation ty a) (operation' ty' b) K.same) :
    K.couples world (list.foldlM operation ty) (list'.foldlM operation' ty') K.same := by
  induction list generalizing world list' ty ty' with
  | nil =>
    cases related
    simp only [List.foldlM_nil]
    exact core.pure tySame
  | cons head tail ih =>
    obtain _ | ⟨headRelated, tailRelated⟩ := related
    simp only [List.foldlM_cons]
    refine core.bind (each _ _ _ _ _ (core.later_refl _) tySame headRelated) ?_
    intro world₁ next next' step₁ nextSame
    exact ih (persistent.list _ _ _ _ tailRelated step₁) nextSame
      fun world' ty ty' a b step same holds =>
        each world' ty ty' a b (core.later_trans step₁ step) same holds

end Core

end Coupling

end FeatureTypes

import FeatureTypes.Proofs.Checker.Operation
import FeatureTypes.Proofs.Coupling.Checks

/-!
# Coupled operations
-/

namespace FeatureTypes.Coupling

open Checker

/-- Types that are the same have the same number. -/
def Exact (K : Coupling) : Prop :=
  ∀ world ty ty', K.same world ty ty' → ty' = ty

variable {K : Coupling} {world : K.World}

theorem list_eq_of_same (exact : K.Exact) {list list' : List TypeId}
    (same : List.Forall₂ (K.same world) list list') : list' = list := by
  induction same with
  | nil => rfl
  | cons headSame _ ih => rw [exact _ _ _ headSame, ih]

theorem related_self {layer : Node} (same : ∀ child ∈ layer.children, K.same world child child) :
    Node.Related (K.same world) layer layer := by
  cases layer with
  | applied feature args outer isRef isThis =>
    refine .applied feature isRef isThis
      (List.forall₂_same.mpr fun ty member => same ty (List.mem_append_left _ member)) ?_
    cases outer with
    | none => exact .none
    | some around => exact .some (same around (List.mem_append_right _ (by simp)))
  | error => exact .error
  | void => exact .void
  | undefined => exact .undefined
  | formal id boxed => exact .formal id boxed

theorem same_parts {args : List TypeId} {outer : Option TypeId}
    (same : ∀ ty ∈ args ++ outer.toList, K.same world ty ty) :
    List.Forall₂ (K.same world) args args ∧ Option.Rel (K.same world) outer outer := by
  refine ⟨List.forall₂_same.mpr fun ty member => same ty (List.mem_append_left _ member), ?_⟩
  cases outer with
  | none => exact .none
  | some around => exact .some (same around (List.mem_append_right _ (by simp)))

namespace Core

variable (core : K.Core)

include core

theorem answer {α : Type} {operation : CheckM α} (wrap : α → Answer)
    {relation : K.World → α → α → Prop} (coupled : K.couples world operation operation relation)
    (exact : ∀ world' result result', relation world' result result' → result' = result) :
    K.couples world (do return wrap (← operation)) (do return wrap (← operation)) K.Agrees := by
  refine core.bind coupled ?_
  intro world' result result' _ related
  refine core.pure ?_
  rw [Agrees, exact world' result result' related]

theorem typeAnswer (exact : K.Exact) {operation : CheckM TypeId}
    (coupled : K.couples world operation operation K.same) :
    K.couples world (do return Answer.type (← operation)) (do return Answer.type (← operation))
      K.Agrees :=
  core.answer .type coupled exact

theorem truthAnswer {operation : CheckM Bool}
    (coupled : K.couples world operation operation K.Agrees) :
    K.couples world (do return Answer.truth (← operation)) (do return Answer.truth (← operation))
      K.Agrees :=
  core.answer .truth coupled fun _ _ _ agree => agree

/-- A construction from types that both sides share gives one such type. -/
theorem construction (construction : Construction)
    (same : ∀ ty ∈ construction.uses, K.same world ty ty) :
    K.couples world construction.run construction.run K.same := by
  cases construction with
  | intern layer => exact core.intern (related_self same)
  | formal id => exact core.formal id
  | applied feature args outer isRef =>
    obtain ⟨sameArgs, sameOuter⟩ := same_parts same
    exact core.applied feature isRef sameArgs sameOuter
  | rebuild ty args outer =>
    obtain ⟨tySame, partsSame⟩ := List.forall_mem_cons.mp same
    obtain ⟨sameArgs, sameOuter⟩ := same_parts partsSame
    exact core.rebuild tySame sameArgs sameOuter
  | asRef ty => exact core.asRef (same ty (List.mem_singleton.mpr rfl))
  | asValue ty =>
    exact core.change (same ty (List.mem_singleton.mpr rfl))
      fun _ _ _ _ related => related.withRef false
  | asThis ty => exact core.asThis (same ty (List.mem_singleton.mpr rfl))
  | shiftFormals source target offset ty =>
    exact core.shiftFormals source target offset (same ty (List.mem_singleton.mpr rfl))
  | selfType id => exact core.selfType id
  | instantiate id args =>
    exact core.instantiate id (List.forall₂_same.mpr same)

end Core

/-- Where types that are the same have the same number, so have the answers. -/
theorem Full.call (full : K.Full) (exact : K.Exact) (call : Call)
    (same : ∀ ty ∈ call.uses, K.same world ty ty) : K.couples world call.run call.run K.Agrees := by
  have core := full.toCore
  have single : ∀ {ty : TypeId}, (∀ used ∈ [ty], K.same world used used) → K.same world ty ty :=
    fun same => same _ (List.mem_singleton.mpr rfl)
  have double : ∀ {first second : TypeId}, (∀ used ∈ [first, second], K.same world used used) →
      K.same world first first ∧ K.same world second second :=
    fun same => ⟨(List.forall_mem_cons.mp same).1, single (List.forall_mem_cons.mp same).2⟩
  have listed : ∀ {ty : TypeId} {list : List TypeId},
      (∀ used ∈ ty :: list, K.same world used used) →
        K.same world ty ty ∧ List.Forall₂ (K.same world) list list :=
    fun same => ⟨(List.forall_mem_cons.mp same).1,
      List.forall₂_same.mpr (List.forall_mem_cons.mp same).2⟩
  cases call with
  | substitute owner actuals target =>
    exact core.typeAnswer exact
      (full.substitute world owner _ _ _ _ (listed same).2 (listed same).1)
  | substituteVia source target =>
    exact core.typeAnswer exact (full.substituteVia (double same).1 (double same).2)
  | replaceFormals ty list =>
    exact core.answer .types (full.replaceFormals (listed same).1 (listed same).2)
      fun _ _ _ same => list_eq_of_same exact same
  | summands ty =>
    refine core.answer .summands (full.summands? (single same)) ?_
    intro world' summands summands' related
    cases related with
    | none => rfl
    | some same => rw [list_eq_of_same exact same]
  | metatype ty => exact core.typeAnswer exact (full.metatype (single same))
  | isAssignable target actual =>
    exact core.truthAnswer (full.isAssignable (double same).1 (double same).2)
  | isAssignableCollecting target actual =>
    exact core.answer (fun result => .names result.1 result.2)
      (full.isAssignableCollecting (double same).1 (double same).2 []) fun _ _ _ agree => agree
  | isDirectlyAssignable target actual =>
    exact core.truthAnswer (full.isDirectlyAssignable (double same).1 (double same).2)
  | isAssignableOrError target actual =>
    exact core.truthAnswer (full.isAssignableOrError (double same).1 (double same).2)
  | meetsConstraint constraint actual =>
    exact core.truthAnswer (full.meetsConstraint (double same).1 (double same).2)
  | union left right =>
    exact core.typeAnswer exact (full.union (double same).1 (double same).2)
  | checkChoice ty span =>
    exact core.answer (fun _ => .none) (full.checkChoice (single same) span)
      fun _ _ _ agree => agree
  | checkConstraints ty span =>
    exact core.typeAnswer exact (full.checkConstraints (single same) span)
  | replaceThis ty target =>
    exact core.typeAnswer exact (core.replaceThis (double same).1 (double same).2)
  | replaceThisFormal owner replacement ty =>
    exact core.typeAnswer exact (core.replaceThisFormal owner replacement (single same))
  | dropThisFormals ty => exact core.typeAnswer exact (core.dropThisFormals (single same))
  | liftFormals id ty => exact core.typeAnswer exact (core.liftFormalsWithin _ id (single same))
  | ensureNotOpen ty => exact core.truthAnswer (full.ensureNotOpen (single same))
  | report issue span =>
    exact core.answer (fun _ => .none) (full.report issue span) fun _ _ _ agree => agree

end FeatureTypes.Coupling

import FeatureTypes.Proofs.Meaning.Basic

/-!
# Demands on substitutions

A substitution may be held to more than its equation asks for: that the actuals fit, that
every formal has an actual, or that no types are made on the way but some.
-/

namespace FeatureTypes

/-- What is demanded of the steps of a substitution. -/
structure Demands where
  /-- The actuals have to fit, and every formal has to have an actual. -/
  strict : Prop
  /-- The numbers of actuals that fit. -/
  accepts : FeatureId → Nat → Prop
  /-- The types that may be made. -/
  admits : Ty → Prop

namespace Demands

/-- Nothing is demanded. -/
def lax : Demands := ⟨False, fun _ _ => True, fun _ => True⟩

/-- All types but the error type may be made. -/
def Liberal (demands : Demands) : Prop :=
  ∀ ty, ty ≠ .error → demands.admits ty

open Classical in
/-- The type, if it may be made. -/
noncomputable def make (demands : Demands) (ty : Ty) : Option Ty :=
  if demands.admits ty then some ty else none

/-- The result in place of the type, if it may be made or nothing changes. -/
noncomputable def replace (demands : Demands) (ty result : Ty) : Option Ty :=
  if result = ty then some ty else demands.make result

theorem liberal_lax : lax.Liberal :=
  fun _ _ => trivial

@[simp]
theorem make_lax (ty : Ty) : lax.make ty = some ty :=
  if_pos trivial

@[simp]
theorem replace_lax (ty result : Ty) : lax.replace ty result = some result := by
  rw [replace, make_lax]
  split <;> simp [*]

theorem replace_self (demands : Demands) (ty : Ty) : demands.replace ty ty = some ty :=
  if_pos rfl

theorem replace_of_admits {demands : Demands} {result : Ty} (admitted : demands.admits result)
    (ty : Ty) : demands.replace ty result = some result := by
  rw [replace, make, if_pos admitted]
  split <;> simp [*]

theorem eq_of_make {demands : Demands} {ty result : Ty} (made : demands.make ty = some result) :
    ty = result := by
  rw [make] at made
  split at made
  · exact Option.some.inj made
  · cases made

theorem eq_of_replace {demands : Demands} {ty ty' result : Ty}
    (replaced : demands.replace ty ty' = some result) : ty' = result := by
  rw [replace] at replaced
  split at replaced
  next unchanged => exact unchanged.trans (Option.some.inj replaced)
  next => exact eq_of_make replaced

end Demands

namespace Signature

variable (signature : Signature)

/-! ## Finitary steps -/

theorem finitary_substituteEach (owner : FeatureId) (actuals list : List Ty) :
    Finitary fun call => signature.substituteEach
      (fun owner actuals target => call (owner, actuals, target)) owner actuals list := by
  induction list with
  | nil => exact .const _
  | cons ty rest ih =>
    simp only [substituteEach]
    refine .bind (.const _) fun position => ?_
    cases position with
    | some position => exact .const _
    | none => exact .bind (.call _) fun first => .bind ih fun others => .const _

theorem finitary_substituteList (owner : FeatureId) (actuals list : List Ty) :
    Finitary fun call => signature.substituteList
      (fun owner actuals target => call (owner, actuals, target)) owner actuals list := by
  exact .bind (.const _) fun declared =>
    .branch (.const _) (signature.finitary_substituteEach owner actuals list)

theorem finitary_seenFrom (self ty : Ty) :
    Finitary fun call => signature.seenFrom
      (fun owner actuals target => call (owner, actuals, target)) self ty := by
  induction self generalizing ty with
  | applied id args outer isRef isThis _ outerFinitary =>
    unfold seenFrom
    refine .bind (.const _) fun replaced => .bind (.const _) fun declared => ?_
    refine .branch (.const _) ?_
    cases outer with
    | none => exact .call _
    | some around => exact .bind (outerFinitary around rfl replaced) fun seen => .call _
  | _ =>
    unfold seenFrom
    exact .bind (.const _) fun replaced => .const _

theorem finitary_settleArgs (feature : FeatureId) (args : List Ty) :
    Finitary fun call => signature.settleArgs
      (fun owner actuals target => call (owner, actuals, target)) feature args := by
  refine .bind (.const _) fun declared => .branch (.const _) ?_
  cases args with
  | nil => exact .const _
  | cons self rest =>
    refine .bind (.mapM (fun ty => ?_) rest) fun others => .const _
    exact .branch (.const _) (signature.finitary_seenFrom self ty)

/-! ## Steps under demands -/

section

variable (demands : Demands)

/-- Whether the formal is not open; an open one is as good as the error type. -/
noncomputable def closedUnder (id : FormalId) : Option Bool := do
  if (← signature.formal? id).any FormalOutline.isOpen then
    (demands.make .error).map fun _ => false
  else return true

open Classical in
/-- The actual for the formal `id`. -/
noncomputable def actualUnder (actuals : List Ty) (id : FormalId) : Option Ty :=
  if demands.strict then actuals[id.index]? else some (actuals[id.index]?.getD .error)

/-- The actual for the formal `id`, if it belongs to `owner`. -/
noncomputable def formalUnder (owner : FeatureId) (actuals : List Ty) (id : FormalId)
    (boxed : Bool) : Option Ty := do
  if id.feature ≠ owner then return .formal id boxed
  if !(← signature.closedUnder demands id) then return .error
  let actual ← actualUnder demands actuals id
  if boxed then demands.replace (.formal id boxed) actual.asRef else return actual

section

variable (call : (owner : FeatureId) → (actuals : List Ty) → (target : Ty) → Option Ty)

open Classical in
/-- The substituted arguments of `feature`, which a companion settles only if types may be
made. -/
noncomputable def argsUnder (feature : FeatureId) (args : List Ty) : Option (List Ty) :=
  if demands.Liberal ∨ ∀ outline ∈ signature.feature feature, outline.origin = none then
    signature.settleArgs call feature args
  else none

/-- What becomes of a type for `owner` itself. -/
noncomputable def ownUnder (owner : FeatureId) (actuals : List Ty) : (ty : Ty) → Option Ty
  | .formal id boxed => signature.formalUnder demands owner actuals id boxed
  | .applied feature args outer isRef isThis => do
    let newArgs ← signature.substituteList call owner actuals args
    let newOuter ← outer.mapM (call owner actuals)
    let newArgs ← signature.argsUnder demands call feature newArgs
    demands.replace (.applied feature args outer isRef isThis)
      (rebuild (.applied feature args outer isRef isThis) newArgs newOuter)
  | ty => some ty

/-- Substitutes first through the parents of `owner`, and then for `owner` itself. -/
noncomputable def stepUnder (owner : FeatureId) (actuals : List Ty) (target : Ty) : Option Ty := do
  let ty ← (← signature.feature owner).parents.foldlM
    (fun ty parent => call parent.ancestor parent.actuals ty) target
  signature.ownUnder demands call owner actuals ty

end

open Classical in
/-- The equation of a substitution under demands. -/
noncomputable def equationUnder (call : FeatureId × List Ty × Ty → Option Ty) :
    FeatureId × List Ty × Ty → Option Ty
  | (owner, actuals, target) =>
    if demands.strict ∧ ¬demands.accepts owner actuals.length then none
    else if !target.mentionsFormal then some target
    else signature.stepUnder demands (fun owner actuals target => call (owner, actuals, target))
      owner actuals target

/-- Replaces the formals of `owner` and of its ancestors in `target`, if the demands are met. -/
noncomputable def substituteUnder (owner : FeatureId) (actuals : List Ty) (target : Ty) :
    Option Ty :=
  solution (signature.equationUnder demands) (owner, actuals, target)

open Classical in
theorem finitary_ownUnder (owner : FeatureId) (actuals : List Ty) (ty : Ty) :
    Finitary fun call => signature.ownUnder demands
      (fun owner actuals target => call (owner, actuals, target)) owner actuals ty := by
  cases ty with
  | applied feature args outer isRef isThis =>
    refine .bind (signature.finitary_substituteList owner actuals args) fun newArgs => ?_
    refine .bind (.optionMapM (fun around => .call _) outer) fun newOuter => ?_
    exact .bind (.branch (signature.finitary_settleArgs feature newArgs) (.const _))
      fun settled => .const _
  | _ => exact .const _

open Classical in
/-- One step calls for finitely many further substitutions. -/
theorem finitary_equationUnder (input : FeatureId × List Ty × Ty) :
    Finitary fun call => signature.equationUnder demands call input := by
  refine .branch (.const _) (.branch (.const _) (.bind (.const _) fun declared => ?_))
  exact .bind (.foldlM (fun ty parent => .call _) _ _) (signature.finitary_ownUnder demands _ _)

end

/-! ## Substitution without demands -/

theorem stepUnder_lax
    (call : (owner : FeatureId) → (actuals : List Ty) → (target : Ty) → Option Ty) :
    signature.stepUnder .lax call = signature.substituteStep call := by
  have notStrict : ¬Demands.lax.strict := id
  funext owner actuals target
  unfold stepUnder substituteStep
  congr! 5 with declared ty
  cases ty with
  | formal id boxed =>
    simp only [ownUnder, formalUnder, substituteFormal, closedUnder, actualUnder, if_neg notStrict]
    cases signature.formal? id with
    | none => rfl
    | some outline =>
      cases isOpen : outline.any FormalOutline.isOpen <;> cases boxed <;> simp [isOpen]
  | applied => simp [ownUnder, argsUnder, Demands.liberal_lax]
  | _ => rfl

theorem equationUnder_lax (call : FeatureId × List Ty × Ty → Option Ty) (owner : FeatureId)
    (actuals : List Ty) (target : Ty) :
    signature.equationUnder .lax call (owner, actuals, target) =
      if !target.mentionsFormal then some target
      else signature.substituteStep (fun owner actuals target => call (owner, actuals, target))
        owner actuals target := by
  rw [equationUnder, if_neg fun both => both.1.elim, stepUnder_lax]

theorem finitary_substituteStep (owner : FeatureId) (actuals : List Ty) (target : Ty) :
    Finitary fun call => signature.substituteStep
      (fun owner actuals target => call (owner, actuals, target)) owner actuals target := by
  simp only [← stepUnder_lax]
  exact .bind (.const _) fun declared =>
    .bind (.foldlM (fun ty parent => .call _) _ _) (signature.finitary_ownUnder .lax _ _)

/-- The type `target` as seen from `source`, given how formals are substituted. -/
def viewStepBy (substitute : FeatureId → List Ty → Ty → Option Ty) (view : Ty → Ty → Option Ty)
    (source target : Ty) : Option Ty := do
  match source with
  | .formal id _ =>
    match ← signature.constraint? id with
    | none => return target
    | some constraint => if constraint = source then return target else view constraint target
  | .applied id args outer _ _ =>
    let result ← substitute id args target
    match outer with
    | none => return result
    | some outer => view outer result
  | .error => return .error
  | _ => return target

theorem viewStepBy_substitute (view : Ty → Ty → Option Ty) (source target : Ty) :
    signature.viewStepBy signature.substitute view source target =
      signature.viewStep view source target := by
  cases source <;> rfl

theorem finitary_viewStep (source target : Ty) :
    Finitary fun call => signature.viewStep (fun source target => call (source, target))
      source target := by
  cases source with
  | formal id boxed =>
    refine .bind (.const _) fun constraint => ?_
    cases constraint with
    | none => exact .const _
    | some constraint => exact .branch (.const _) (.call _)
  | applied id args outer isRef isThis =>
    refine .bind (.const _) fun result => ?_
    cases outer with
    | none => exact .const _
    | some around => exact .call _
  | _ => exact .const _

/-- Substitution solves its equation. -/
theorem substitute_eq (owner : FeatureId) (actuals : List Ty) (target : Ty) :
    signature.substitute owner actuals target =
      if !target.mentionsFormal then some target
      else signature.substituteStep signature.substitute owner actuals target := by
  refine solution_eq ?_ (owner, actuals, target)
  rintro ⟨owner, actuals, target⟩
  exact .branch (.const _) (signature.finitary_substituteStep owner actuals target)

theorem substituteVia_eq (source target : Ty) :
    signature.substituteVia source target =
      if !target.mentionsFormal then some target
      else signature.viewStep signature.substituteVia source target := by
  refine solution_eq ?_ (source, target)
  rintro ⟨source, target⟩
  exact .branch (.const _) (signature.finitary_viewStep source target)

variable {signature} {target : Ty}

theorem substitute_of_closed (closed : target.mentionsFormal = false) (owner : FeatureId)
    (actuals : List Ty) : signature.substitute owner actuals target = some target := by
  rw [substitute_eq, if_pos (by simp [closed])]

theorem substitute_of_open (mentions : target.mentionsFormal = true) (owner : FeatureId)
    (actuals : List Ty) :
    signature.substitute owner actuals target =
      signature.substituteStep signature.substitute owner actuals target := by
  rw [substitute_eq, if_neg (by simp [mentions])]

theorem substituteVia_of_closed (closed : target.mentionsFormal = false) (source : Ty) :
    signature.substituteVia source target = some target := by
  rw [substituteVia_eq, if_pos (by simp [closed])]

theorem substituteVia_of_open (mentions : target.mentionsFormal = true) (source : Ty) :
    signature.substituteVia source target =
      signature.viewStep signature.substituteVia source target := by
  rw [substituteVia_eq, if_neg (by simp [mentions])]

/-! ## Substitutions that meet demands -/

section

variable {demands : Demands} {owner : FeatureId} {actuals : List Ty}
  (fits : demands.strict → demands.accepts owner actuals.length)

include fits

theorem substituteUnder_of_closed (closed : target.mentionsFormal = false) :
    signature.substituteUnder demands owner actuals target = some target := by
  rw [substituteUnder, solution_eq (signature.finitary_equationUnder demands), equationUnder,
    if_neg fun both => both.2 (fits both.1), if_pos (by simp [closed])]

theorem substituteUnder_of_open (mentions : target.mentionsFormal = true) :
    signature.substituteUnder demands owner actuals target =
      signature.stepUnder demands (signature.substituteUnder demands) owner actuals target := by
  rw [substituteUnder, solution_eq (signature.finitary_equationUnder demands), equationUnder,
    if_neg fun both => both.2 (fits both.1), if_neg (by simp [mentions])]
  rfl

end

section

variable {demands : Demands} {owner : FeatureId} {actuals : List Ty} {result : Ty}

theorem substituteFormal_of_formalUnder {id : FormalId} {boxed : Bool}
    (settled : signature.formalUnder demands owner actuals id boxed = some result) :
    signature.substituteFormal owner actuals id boxed = some result := by
  rw [formalUnder] at settled
  rw [substituteFormal]
  split at settled
  next foreign => rwa [if_pos foreign]
  next belongs =>
    rw [if_neg belongs]
    obtain ⟨closed, isClosed, settled⟩ := Option.bind_eq_some_iff.mp settled
    obtain ⟨outline, declared, isClosed⟩ := Option.bind_eq_some_iff.mp isClosed
    simp only [declared, Option.bind_eq_bind, Option.bind_some]
    split at isClosed
    next isOpen =>
      rw [if_pos isOpen]
      obtain ⟨_, _, rfl⟩ := Option.map_eq_some_iff.mp isClosed
      exact settled
    next notOpen =>
      obtain rfl := Option.some.inj isClosed
      rw [if_neg notOpen]
      obtain ⟨actual, isActual, settled⟩ := Option.bind_eq_some_iff.mp settled
      have actualEq : actuals[id.index]?.getD .error = actual := by
        rw [actualUnder] at isActual
        split at isActual
        · rw [isActual, Option.getD_some]
        · exact Option.some.inj isActual
      rw [actualEq]
      cases boxed with
      | false => exact settled
      | true => exact congrArg some (Demands.eq_of_replace settled)

theorem substituteStep_of_stepUnder
    {call : (owner : FeatureId) → (actuals : List Ty) → (target : Ty) → Option Ty}
    (settled : signature.stepUnder demands call owner actuals target = some result) :
    signature.substituteStep call owner actuals target = some result := by
  obtain ⟨outline, declared, settled⟩ := Option.bind_eq_some_iff.mp settled
  obtain ⟨ty, fromParents, settled⟩ := Option.bind_eq_some_iff.mp settled
  refine Option.bind_eq_some_iff.mpr ⟨outline, declared,
    Option.bind_eq_some_iff.mpr ⟨ty, fromParents, ?_⟩⟩
  cases ty with
  | formal id boxed => exact substituteFormal_of_formalUnder settled
  | applied feature args outer isRef isThis =>
    obtain ⟨newArgs, substituted, settled⟩ := Option.bind_eq_some_iff.mp settled
    obtain ⟨newOuter, substituted', settled⟩ := Option.bind_eq_some_iff.mp settled
    obtain ⟨settledArgs, settles, settled⟩ := Option.bind_eq_some_iff.mp settled
    rw [argsUnder] at settles
    split at settles
    · exact Option.bind_eq_some_iff.mpr ⟨newArgs, substituted,
        Option.bind_eq_some_iff.mpr ⟨newOuter, substituted',
          Option.bind_eq_some_iff.mpr ⟨settledArgs, settles,
            congrArg some (Demands.eq_of_replace settled)⟩⟩⟩
    · cases settles
  | _ => exact settled

/-- A substitution that meets the demands has the result that is prescribed. -/
theorem substitute_of_under
    (settled : signature.substituteUnder demands owner actuals target = some result) :
    signature.substitute owner actuals target = some result := by
  refine solution_induction (motive := fun input output =>
    signature.substitute input.1 input.2.1 input.2.2 = some output) ?_ settled
  rintro call prescribed ⟨owner, actuals, target⟩ output settled
  rw [equationUnder] at settled
  split at settled
  · cases settled
  split at settled
  next closed =>
    obtain rfl := Option.some.inj settled
    exact substitute_of_closed (by simpa using closed) owner actuals
  next mentions =>
    rw [substitute_of_open (by simpa using mentions)]
    obtain ⟨_, keeps⟩ := signature.finitary_substituteStep owner actuals target call output
      (substituteStep_of_stepUnder settled)
    exact keeps (fun input => signature.substitute input.1 input.2.1 input.2.2)
      fun input _ => prescribed input

theorem prescribed_of_unfolding (depth : Nat)
    (settled : signature.stepUnder demands (fun owner actuals target =>
      unfolding (signature.equationUnder demands) depth (owner, actuals, target)) owner actuals
        target = some result) :
    signature.substituteStep signature.substitute owner actuals target = some result := by
  obtain ⟨_, keeps⟩ := signature.finitary_substituteStep owner actuals target _ result
    (substituteStep_of_stepUnder settled)
  refine keeps (fun input => signature.substitute input.1 input.2.1 input.2.2) ?_
  rintro ⟨owner, actuals, target⟩ _ output settled
  exact substitute_of_under
    ((solution_eq_some_iff (signature.finitary_equationUnder demands)).mpr ⟨depth, settled⟩)

end

/-! ## Views under demands -/

variable (signature) in
/-- What becomes of a substitution within the depth, if the demands are met. -/
noncomputable def substituteWithin (demands : Demands) (depth : Nat) (owner : FeatureId)
    (actuals : List Ty) (target : Ty) : Option Ty :=
  unfolding (signature.equationUnder demands) depth (owner, actuals, target)

variable (signature) in
/-- The type `target` as seen from `source` within the depth, if the demands are met. -/
noncomputable def viewWithin (demands : Demands) : (depth : Nat) → (source target : Ty) → Option Ty
  | 0, _, _ => none
  | depth + 1, source, target =>
    if !target.mentionsFormal then some target
    else signature.viewStepBy (signature.substituteWithin demands depth)
      (viewWithin demands depth) source target

section

variable {demands : Demands} {depth : Nat} {source value : Ty}

theorem viewStep_of_viewStepBy
    (prescribed : ∀ source target value, signature.viewWithin demands depth source target =
      some value → signature.substituteVia source target = some value)
    (settled : signature.viewStepBy (signature.substituteWithin demands depth)
      (signature.viewWithin demands depth) source target = some value) :
    signature.viewStep signature.substituteVia source target = some value := by
  cases source with
  | formal id boxed =>
    obtain ⟨constraint, isConstraint, settled⟩ := Option.bind_eq_some_iff.mp settled
    refine Option.bind_eq_some_iff.mpr ⟨constraint, isConstraint, ?_⟩
    cases constraint with
    | none => exact settled
    | some constraint =>
      dsimp only at settled ⊢
      split at settled
      next same => rwa [if_pos same]
      next other =>
        rw [if_neg other]
        exact prescribed _ _ _ settled
  | applied id args outer isRef isThis =>
    obtain ⟨result, isResult, settled⟩ := Option.bind_eq_some_iff.mp settled
    refine Option.bind_eq_some_iff.mpr ⟨result, substitute_of_under
      ((solution_eq_some_iff (signature.finitary_equationUnder demands)).mpr
        ⟨depth, isResult⟩), ?_⟩
    cases outer with
    | none => exact settled
    | some around => exact prescribed _ _ _ settled
  | _ => exact settled

/-- What is seen under demands is what is seen without. -/
theorem substituteVia_of_viewWithin
    (settled : signature.viewWithin demands depth source target = some value) :
    signature.substituteVia source target = some value := by
  induction depth generalizing source target value with
  | zero => cases settled
  | succ depth ih =>
    rw [substituteVia_eq]
    rw [viewWithin] at settled
    split at settled
    next closed => rwa [if_pos closed]
    next mentions =>
      rw [if_neg mentions]
      exact viewStep_of_viewStepBy (fun _ _ _ => ih) settled

end

end Signature

end FeatureTypes

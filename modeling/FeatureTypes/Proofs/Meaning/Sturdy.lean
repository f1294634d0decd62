import FeatureTypes.Proofs.Feature.Resolution
import FeatureTypes.Proofs.Meaning.History

/-!
# Sturdy types

A type is sturdy if everything in it is known and declared, and every feature in it is
applied to as many arguments as it has formals.
-/

namespace FeatureTypes

variable {feature : FeatureId} {outer : Option Ty} {ty result target : Ty} {args : List Ty}

def Ty.RootKept (ty result : Ty) : Prop :=
  ∀ feature args outer isRef isThis, ty = .applied feature args outer isRef isThis →
    ∃ args' outer', result = .applied feature args' outer' isRef isThis

theorem Ty.RootKept.refl (ty : Ty) : ty.RootKept ty :=
  fun _ args outer _ _ applied => ⟨args, outer, applied⟩

theorem Ty.RootKept.trans {first second third : Ty} (kept : first.RootKept second)
    (kept' : second.RootKept third) : first.RootKept third := by
  intro feature args outer isRef isThis applied
  obtain ⟨args', outer', applied'⟩ := kept feature args outer isRef isThis applied
  exact kept' feature args' outer' isRef isThis applied'

namespace Signature

/-! ## Definitions -/

section

variable (signature : Signature)

/-- The feature of the formal is declared with that many formals. -/
def DeclaresFormal (id : FormalId) : Prop :=
  (signature.feature id.feature).any (fun outline => id.index < outline.formals.length) = true

/-- The feature is declared with `count` formals. -/
def Fits (feature : FeatureId) (count : Nat) : Prop :=
  (signature.feature feature).map (·.formals.length) = some count

/-- The signature of a checker has the formals that its features declare. -/
theorem declaresFormal_iff {checker : Checker} {id : FormalId} :
    checker.signature.DeclaresFormal id ↔ checker.features.DeclaresFormal id := by
  simp only [DeclaresFormal, FeatureTable.DeclaresFormal, Checker.signature]
  cases checker.features.get id.feature <;> simp [Except.toOption, Feature.outline]

/-- The signature of a checker asks for as many arguments as its features do. -/
theorem fits_iff {checker : Checker} {feature : FeatureId} {count : Nat} :
    checker.signature.Fits feature count ↔ checker.features.Fits feature count := by
  simp only [Fits, FeatureTable.Fits, Checker.signature]
  cases checker.features.get feature <;> simp [Except.toOption, Feature.outline, eq_comm]

def SturdyRoot : Ty → Prop
  | .error | .undefined => False
  | .void => True
  | .formal id _ => signature.DeclaresFormal id
  | .applied feature args _ _ _ => signature.Fits feature args.length

/-- Everything in the type is known and declared, with as many arguments as it should have. -/
def Sturdy (ty : Ty) : Prop :=
  ∀ part ∈ ty.parts, signature.SturdyRoot part

instance : DecidablePred signature.SturdyRoot
  | .error | .undefined => isFalse id
  | .void => isTrue trivial
  | .formal _ _ => inferInstanceAs (Decidable (_ = true))
  | .applied _ args _ _ _ => inferInstanceAs (Decidable (_ = some args.length))

instance : DecidablePred signature.Sturdy :=
  fun ty => inferInstanceAs (Decidable (∀ part ∈ ty.parts, signature.SturdyRoot part))

/-- Nothing is open or a companion, and the declared types are sturdy. -/
structure Firm : Prop where
  formals_closed : ∀ id outline, signature.feature id = some outline →
    ∀ formal ∈ outline.formals, formal.isOpen = false
  no_companion : ∀ id outline, signature.feature id = some outline → outline.origin = none
  constraint_sturdy : ∀ id outline, signature.feature id = some outline →
    ∀ formal ∈ outline.formals, signature.Sturdy formal.constraint
  parent_sturdy : ∀ id outline, signature.feature id = some outline →
    ∀ parent ∈ outline.parents, signature.Sturdy parent.ty
  parent_spelled : ∀ id outline, signature.feature id = some outline →
    ∀ parent ∈ outline.parents, ∃ outer isRef,
      parent.ty = .applied parent.ancestor parent.actuals outer isRef false

/-- The type `result` of an operation on `ty` is sturdy, and applies the feature that `ty`
applies. -/
structure Reshapes (ty result : Ty) : Prop where
  sturdy : signature.Sturdy result
  root_kept : ty.RootKept result

/-- The actuals are sturdy, one for each formal of `owner`. -/
structure Supplies (owner : FeatureId) (actuals : List Ty) : Prop where
  fits : signature.Fits owner actuals.length
  sturdy : ∀ actual ∈ actuals, signature.Sturdy actual

end

variable {signature : Signature}

/-! ## Parts -/

theorem sturdy_formal_iff {id : FormalId} {boxed : Bool} :
    signature.Sturdy (.formal id boxed) ↔ signature.DeclaresFormal id := by
  simp [Sturdy, Ty.parts, SturdyRoot]

theorem sturdy_applied_iff {isRef isThis : Bool} :
    signature.Sturdy (.applied feature args outer isRef isThis) ↔
      signature.Supplies feature args ∧
        ∀ around, outer = some around → signature.Sturdy around := by
  constructor
  · intro sturdy
    refine ⟨⟨sturdy _ (Ty.self_mem_parts _), ?_⟩, ?_⟩
    · exact fun arg member part occurs => sturdy part (Ty.mem_parts_of_mem_args member occurs)
    · rintro around rfl part occurs
      exact sturdy part (Ty.mem_parts_of_outer occurs)
  · rintro ⟨supplies, outerSturdy⟩ part occurs
    rcases Ty.mem_parts_applied.mp occurs with rfl | ⟨arg, member, inArg⟩ |
      ⟨around, present, inOuter⟩
    · exact supplies.fits
    · exact supplies.sturdy arg member part inArg
    · exact outerSturdy around present part inOuter

section

variable (sturdy : signature.Sturdy ty)

include sturdy

theorem Sturdy.ne_error : ty ≠ .error := by
  rintro rfl
  exact sturdy .error (Ty.self_mem_parts _)

theorem Sturdy.asRef : signature.Sturdy ty.asRef := by
  cases ty with
  | formal id boxed => exact sturdy_formal_iff.mpr (sturdy_formal_iff.mp sturdy)
  | applied feature args outer isRef isThis =>
    exact sturdy_applied_iff.mpr (sturdy_applied_iff.mp sturdy)
  | _ => exact sturdy

theorem Sturdy.isAbsorbing_eq : ty.isAbsorbing = false := by
  cases ty with
  | error | undefined => exact (sturdy _ (Ty.self_mem_parts _)).elim
  | _ => rfl

theorem Reshapes.refl : signature.Reshapes ty ty :=
  ⟨sturdy, .refl ty⟩

end

theorem Reshapes.trans {first second third : Ty} (reshapes : signature.Reshapes first second)
    (reshapes' : signature.Reshapes second third) : signature.Reshapes first third :=
  ⟨reshapes'.sturdy, reshapes.root_kept.trans reshapes'.root_kept⟩

theorem Reshapes.applied {feature : FeatureId} {args newArgs : List Ty} {outer newOuter : Option Ty}
    {isRef isThis : Bool} (sturdy : signature.Sturdy (.applied feature args outer isRef isThis))
    (lengthEq : newArgs.length = args.length) (argsSturdy : ∀ arg ∈ newArgs, signature.Sturdy arg)
    (outerSturdy : ∀ around, newOuter = some around → signature.Sturdy around) :
    signature.Reshapes (.applied feature args outer isRef isThis)
      (.applied feature newArgs newOuter isRef isThis) := by
  have supplies := (sturdy_applied_iff.mp sturdy).1
  refine ⟨sturdy_applied_iff.mpr ⟨⟨lengthEq ▸ supplies.fits, argsSturdy⟩, outerSturdy⟩, ?_⟩
  intro _ _ _ _ _ applied
  cases applied
  exact ⟨newArgs, newOuter, rfl⟩

theorem Reshapes.rebuild {newArgs : List Ty} {newOuter : Option Ty} {isRef isThis : Bool}
    (sturdy : signature.Sturdy (.applied feature args outer isRef isThis))
    (lengthEq : newArgs.length = args.length) (argsSturdy : ∀ arg ∈ newArgs, signature.Sturdy arg)
    (outerSturdy : ∀ around, newOuter = some around → signature.Sturdy around) :
    signature.Reshapes (.applied feature args outer isRef isThis)
      (Signature.rebuild (.applied feature args outer isRef isThis) newArgs newOuter) := by
  rw [Signature.rebuild]
  split
  next => exact .refl sturdy
  next =>
    rw [if_neg]
    · exact .applied sturdy lengthEq argsSturdy outerSturdy
    · rintro (isError | isError)
      · exact (outerSturdy .error isError).ne_error rfl
      · exact (argsSturdy .error isError).ne_error rfl

theorem Fits.exists_outline {count : Nat} (fits : signature.Fits feature count) :
    ∃ outline, signature.feature feature = some outline ∧ outline.formals.length = count :=
  Option.map_eq_some_iff.mp fits

theorem DeclaresFormal.exists_outline {id : FormalId} (declares : signature.DeclaresFormal id) :
    ∃ outline, signature.feature id.feature = some outline ∧ id.index < outline.formals.length := by
  rw [DeclaresFormal, Option.any_eq_true] at declares
  obtain ⟨outline, declared, bound⟩ := declares
  exact ⟨outline, declared, of_decide_eq_true bound⟩

theorem sturdy_mapM {visit : Ty → Option Ty} {list list' : List Ty}
    (sturdily : ∀ ty ∈ list, ∀ result, visit ty = some result → signature.Sturdy result)
    (visited : list.mapM visit = some list') :
    list'.length = list.length ∧ ∀ ty ∈ list', signature.Sturdy ty := by
  have forall₂ := mapM_eq_some_iff.mp visited
  refine ⟨forall₂.length_eq.symm, ?_⟩
  clear visited
  induction forall₂ with
  | nil => simp
  | cons head _ ih =>
    rw [List.forall_mem_cons] at sturdily ⊢
    exact ⟨sturdily.1 _ head, ih sturdily.2⟩

theorem sturdy_optionMapM {visit : Ty → Option Ty} {outer' : Option Ty}
    (sturdily : ∀ ty, outer = some ty → ∀ result, visit ty = some result → signature.Sturdy result)
    (visited : outer.mapM visit = some outer') :
    ∀ around, outer' = some around → signature.Sturdy around := by
  rintro around rfl
  cases outer with
  | none => cases visited
  | some ty =>
    rw [Option.mapM_some, Option.map_eq_map] at visited
    obtain ⟨result, settled, isResult⟩ := Option.map_eq_some_iff.mp visited
    obtain rfl := Option.some.inj isResult
    exact sturdily ty rfl result settled

/-! ## Substitution -/

def SubstitutesSturdily (signature : Signature)
    (substitute : (owner : FeatureId) → (actuals : List Ty) → (target : Ty) → Option Ty) : Prop :=
  ∀ owner actuals target result, signature.Supplies owner actuals → signature.Sturdy target →
    substitute owner actuals target = some result → signature.Reshapes target result

/-- No formal is open. -/
def FormalsClosed (signature : Signature) : Prop :=
  ∀ id outline, signature.feature id = some outline →
    ∀ formal ∈ outline.formals, formal.isOpen = false

namespace FormalsClosed

variable (closed : signature.FormalsClosed)

include closed

theorem isOpen_eq {id : FormalId} {formal? : Option FormalOutline}
    (found : signature.formal? id = some formal?) : formal?.any FormalOutline.isOpen = false := by
  obtain ⟨outline, declared, isFormal⟩ := Option.bind_eq_some_iff.mp found
  obtain rfl := Option.some.inj isFormal
  cases at? : outline.formals[id.index]? with
  | none => rfl
  | some formal => exact closed id.feature outline declared formal (List.mem_of_getElem? at?)

theorem trailingOpen?_eq {owner : FeatureId} {rest : List Ty} {position : Option Nat}
    (ends : signature.trailingOpen? owner ty rest = some position) : position = none := by
  unfold trailingOpen? at ends
  split at ends
  next id boxed =>
    split at ends
    next => exact (Option.some.inj ends).symm
    next =>
      obtain ⟨formal?, found, ends⟩ := Option.bind_eq_some_iff.mp ends
      rw [closed.isOpen_eq found] at ends
      exact (Option.some.inj ends).symm
  next => exact (Option.some.inj ends).symm

theorem substituteEach_forall₂
    {substitute : (owner : FeatureId) → (actuals : List Ty) → (target : Ty) → Option Ty}
    {owner : FeatureId} {actuals list list' : List Ty}
    (substituted : signature.substituteEach substitute owner actuals list = some list') :
    List.Forall₂ (fun ty result => substitute owner actuals ty = some result) list list' := by
  induction list generalizing list' with
  | nil =>
    obtain rfl := Option.some.inj substituted
    exact .nil
  | cons ty rest ih =>
    obtain ⟨position, ends, substituted⟩ := Option.bind_eq_some_iff.mp substituted
    obtain rfl := closed.trailingOpen?_eq ends
    obtain ⟨first, firstEq, substituted⟩ := Option.bind_eq_some_iff.mp substituted
    obtain ⟨others, othersEq, substituted⟩ := Option.bind_eq_some_iff.mp substituted
    obtain rfl := Option.some.inj substituted
    exact .cons firstEq (ih othersEq)

end FormalsClosed

namespace Firm

variable (firm : signature.Firm)

include firm

theorem closed : signature.FormalsClosed :=
  firm.formals_closed

theorem settleArgs_eq
    {substitute : (owner : FeatureId) → (actuals : List Ty) → (target : Ty) → Option Ty}
    {settled : List Ty} (settles : signature.settleArgs substitute feature args = some settled) :
    settled = args := by
  obtain ⟨outline, declared, settles⟩ := Option.bind_eq_some_iff.mp settles
  rw [firm.no_companion feature outline declared] at settles
  exact (Option.some.inj settles).symm

theorem supplies_parent {id : FeatureId} {outline : Outline}
    (declared : signature.feature id = some outline) {parent : ParentOutline}
    (member : parent ∈ outline.parents) : signature.Supplies parent.ancestor parent.actuals := by
  have sturdy := firm.parent_sturdy id outline declared parent member
  obtain ⟨outer, isRef, spelled⟩ := firm.parent_spelled id outline declared parent member
  rw [spelled] at sturdy
  exact (sturdy_applied_iff.mp sturdy).1

section

variable {substitute : (owner : FeatureId) → (actuals : List Ty) → (target : Ty) → Option Ty}
  (sturdily : signature.SubstitutesSturdily substitute) {owner : FeatureId} {actuals : List Ty}
  (supplies : signature.Supplies owner actuals)

include sturdily supplies

theorem substituteEach_sturdy {list list' : List Ty} (sturdy : ∀ ty ∈ list, signature.Sturdy ty)
    (substituted : signature.substituteEach substitute owner actuals list = some list') :
    list'.length = list.length ∧ ∀ ty ∈ list', signature.Sturdy ty := by
  have each := firm.closed.substituteEach_forall₂ substituted
  clear substituted
  induction each with
  | nil => exact ⟨rfl, sturdy⟩
  | cons firstEq _ ih =>
    rw [List.forall_mem_cons] at sturdy
    obtain ⟨lengthEq, othersSturdy⟩ := ih sturdy.2
    refine ⟨congrArg (· + 1) lengthEq, List.forall_mem_cons.mpr ⟨?_, othersSturdy⟩⟩
    exact (sturdily owner actuals _ _ supplies sturdy.1 firstEq).sturdy

theorem substituteList_sturdy {list list' : List Ty} (sturdy : ∀ ty ∈ list, signature.Sturdy ty)
    (substituted : signature.substituteList substitute owner actuals list = some list') :
    list'.length = list.length ∧ ∀ ty ∈ list', signature.Sturdy ty := by
  obtain ⟨outline, declared, substituted⟩ := Option.bind_eq_some_iff.mp substituted
  dsimp only at substituted
  split at substituted
  next own =>
    obtain rfl := Option.some.inj substituted
    obtain ⟨outline', declared', lengthEq⟩ := supplies.fits.exists_outline
    obtain rfl := Option.some.inj (declared.symm.trans declared')
    exact ⟨by simp [own, lengthEq], supplies.sturdy⟩
  next => exact firm.substituteEach_sturdy sturdily supplies sturdy substituted

omit sturdily in
theorem substituteFormal_sturdy {id : FormalId} {boxed : Bool}
    (sturdy : signature.Sturdy (.formal id boxed))
    (substituted : signature.substituteFormal owner actuals id boxed = some result) :
    signature.Sturdy result := by
  unfold substituteFormal at substituted
  split at substituted
  next =>
    obtain rfl := Option.some.inj substituted
    exact sturdy
  next own =>
    obtain ⟨formal?, found, substituted⟩ := Option.bind_eq_some_iff.mp substituted
    rw [firm.closed.isOpen_eq found] at substituted
    obtain rfl := Option.some.inj substituted
    obtain ⟨outline, declared, lengthEq⟩ := supplies.fits.exists_outline
    have bound : id.index < actuals.length := by
      obtain ⟨outline', declared', bound⟩ := (sturdy_formal_iff.mp sturdy).exists_outline
      rw [not_not.mp own, declared] at declared'
      obtain rfl := Option.some.inj declared'
      exact lengthEq ▸ bound
    rw [List.getElem?_eq_getElem bound, Option.getD_some]
    have actualSturdy := supplies.sturdy _ (List.getElem_mem bound)
    split
    next => exact actualSturdy.asRef
    next => exact actualSturdy

omit firm supplies in
theorem foldlM_sturdy {parents : List ParentOutline} (sturdy : signature.Sturdy target)
    (suppliesParents : ∀ parent ∈ parents, signature.Supplies parent.ancestor parent.actuals)
    (folded : parents.foldlM
      (fun ty parent => substitute parent.ancestor parent.actuals ty) target = some result) :
    signature.Reshapes target result := by
  induction parents generalizing target with
  | nil =>
    obtain rfl := Option.some.inj folded
    exact .refl sturdy
  | cons parent rest ih =>
    rw [List.forall_mem_cons] at suppliesParents
    rw [List.foldlM_cons] at folded
    obtain ⟨middle, middleEq, folded⟩ := Option.bind_eq_some_iff.mp folded
    have first := sturdily _ _ _ _ suppliesParents.1 sturdy middleEq
    exact first.trans (ih first.sturdy suppliesParents.2 folded)

theorem substituteStep_sturdy (sturdy : signature.Sturdy target)
    (substituted : signature.substituteStep substitute owner actuals target = some result) :
    signature.Reshapes target result := by
  obtain ⟨outline, declared, substituted⟩ := Option.bind_eq_some_iff.mp substituted
  obtain ⟨ty, folded, substituted⟩ := Option.bind_eq_some_iff.mp substituted
  have throughParents : signature.Reshapes target ty := foldlM_sturdy sturdily sturdy
    (fun parent member => firm.supplies_parent declared member) folded
  refine throughParents.trans ?_
  have tySturdy := throughParents.sturdy
  cases ty with
  | formal id boxed =>
    refine ⟨firm.substituteFormal_sturdy supplies tySturdy substituted, ?_⟩
    intro _ _ _ _ _ applied
    cases applied
  | applied feature args outer isRef isThis =>
    obtain ⟨newArgs, argsEq, substituted⟩ := Option.bind_eq_some_iff.mp substituted
    obtain ⟨newOuter, outerEq, substituted⟩ := Option.bind_eq_some_iff.mp substituted
    obtain ⟨settled, settles, result⟩ := Option.bind_eq_some_iff.mp substituted
    obtain rfl := firm.settleArgs_eq settles
    obtain rfl := Option.some.inj result
    obtain ⟨argsSupply, outerSturdy⟩ := sturdy_applied_iff.mp tySturdy
    obtain ⟨lengthEq, argsSturdy⟩ :=
      firm.substituteList_sturdy sturdily supplies argsSupply.sturdy argsEq
    refine .rebuild tySturdy lengthEq argsSturdy (sturdy_optionMapM ?_ outerEq)
    intro around present result aroundEq
    exact (sturdily _ _ _ _ supplies (outerSturdy around present) aroundEq).sturdy
  | _ =>
    obtain rfl := Option.some.inj substituted
    exact .refl tySturdy

end

/-- A substitution reshapes sturdy types into sturdy types. -/
theorem substitutesSturdily : signature.SubstitutesSturdily signature.substitute := by
  intro owner actuals target result supplies sturdy substituted
  refine solution_induction (motive := fun input result => signature.Supplies input.1 input.2.1 →
    signature.Sturdy input.2.2 → signature.Reshapes input.2.2 result) ?_ substituted supplies sturdy
  rintro call sturdily ⟨owner, actuals, target⟩ result settled supplies sturdy
  dsimp only at settled
  split at settled
  next =>
    obtain rfl := Option.some.inj settled
    exact .refl sturdy
  next =>
    refine firm.substituteStep_sturdy ?_ supplies sturdy settled
    exact fun owner actuals target result supplies sturdy settled =>
      sturdily (owner, actuals, target) result settled supplies sturdy

theorem constraint?_sturdy {id : FormalId} {constraint : Ty}
    (found : signature.constraint? id = some (some constraint)) : signature.Sturdy constraint := by
  obtain ⟨formal?, found, isConstraint⟩ := Option.bind_eq_some_iff.mp found
  obtain ⟨outline, declared, isFormal⟩ := Option.bind_eq_some_iff.mp found
  obtain ⟨formal, rfl, rfl⟩ := Option.map_eq_some_iff.mp (Option.some.inj isConstraint)
  exact firm.constraint_sturdy _ _ declared formal (List.mem_of_getElem? (Option.some.inj isFormal))

/-- A sturdy type is sturdy as seen from another one. -/
theorem substituteVia_sturdy {source : Ty} (sourceSturdy : signature.Sturdy source)
    (sturdy : signature.Sturdy target)
    (substituted : signature.substituteVia source target = some result) :
    signature.Reshapes target result := by
  -- The view recurs on constraints and on outer types, which need not be smaller: the induction
  -- is on how the result comes about.
  refine solution_induction (motive := fun input result => signature.Sturdy input.1 →
    signature.Sturdy input.2 → signature.Reshapes input.2 result) ?_ substituted sourceSturdy sturdy
  rintro view sturdily ⟨source, target⟩ result settled sourceSturdy sturdy
  dsimp only at settled
  split at settled
  next =>
    obtain rfl := Option.some.inj settled
    exact .refl sturdy
  next =>
    cases source with
    | formal id boxed =>
      obtain ⟨constraint?, isConstraint, settled⟩ := Option.bind_eq_some_iff.mp settled
      cases constraint? with
      | none =>
        obtain rfl := Option.some.inj settled
        exact .refl sturdy
      | some constraint =>
        dsimp only at settled
        split at settled
        next =>
          obtain rfl := Option.some.inj settled
          exact .refl sturdy
        next =>
          exact sturdily (constraint, target) result settled
            (firm.constraint?_sturdy isConstraint) sturdy
    | applied id args outer isRef isThis =>
      obtain ⟨middle, middleEq, settled⟩ := Option.bind_eq_some_iff.mp settled
      obtain ⟨supplies, outerSturdy⟩ := sturdy_applied_iff.mp sourceSturdy
      have first := firm.substitutesSturdily _ _ _ _ supplies sturdy middleEq
      cases outer with
      | none =>
        obtain rfl := Option.some.inj settled
        exact first
      | some around =>
        exact first.trans (sturdily _ _ settled (outerSturdy around rfl) first.sturdy)
    | error | undefined => exact (sourceSturdy _ (Ty.self_mem_parts _)).elim
    | void =>
      obtain rfl := Option.some.inj settled
      exact .refl sturdy

end Firm

/-! ## Enclosing instances -/

theorem transform_sturdy {visit : Ty → Option (Option Ty)} {level : Ty}
    (settles : ∀ ty settled, visit ty = some (some settled) → settled = level)
    (levelSturdy : signature.Sturdy level) (sturdy : signature.Sturdy ty)
    (transformed : ty.transform visit = some result) : signature.Sturdy result := by
  induction ty generalizing result with
  | applied feature args outer isRef isThis argsSturdy outerSturdy =>
    obtain ⟨supplies, aroundSturdy⟩ := sturdy_applied_iff.mp sturdy
    rw [Ty.transform] at transformed
    obtain ⟨settled?, visited, transformed⟩ := Option.bind_eq_some_iff.mp transformed
    cases settled? with
    | some settled =>
      obtain rfl := Option.some.inj transformed
      exact settles _ _ visited ▸ levelSturdy
    | none =>
      dsimp only at transformed
      rw [Ty.transformList_eq_mapM, Ty.transformOption_eq_mapM] at transformed
      obtain ⟨newArgs, argsEq, transformed⟩ := Option.bind_eq_some_iff.mp transformed
      obtain ⟨newOuter, outerEq, transformed⟩ := Option.bind_eq_some_iff.mp transformed
      obtain rfl := Option.some.inj transformed
      obtain ⟨lengthEq, newSturdy⟩ := sturdy_mapM (fun arg member result transformed =>
        argsSturdy arg member (supplies.sturdy arg member) transformed) argsEq
      refine (Reshapes.applied sturdy lengthEq newSturdy (sturdy_optionMapM ?_ outerEq)).sturdy
      exact fun around present result transformed =>
        outerSturdy around present (aroundSturdy around present) transformed
  | _ =>
    rw [Ty.transform] at transformed
    obtain ⟨settled?, visited, transformed⟩ := Option.bind_eq_some_iff.mp transformed
    obtain rfl := Option.some.inj transformed
    cases settled? with
    | some settled => exact settles _ _ visited ▸ levelSturdy
    | none => exact sturdy

theorem replaceThisByLevelAt_settles {level settled : Ty}
    (settles : signature.replaceThisByLevelAt level ty = some (some settled)) :
    settled = level := by
  unfold replaceThisByLevelAt at settles
  split at settles
  next =>
    obtain ⟨answer, _, settles⟩ := Option.bind_eq_some_iff.mp settles
    cases answer with
    | true => exact (Option.some.inj (Option.some.inj settles)).symm
    | false => cases settles
  next => cases settles

/-- The levels of a sturdy type may stand in for enclosing instances. -/
theorem replaceThis_sturdy (sturdy : signature.Sturdy ty) (targetSturdy : signature.Sturdy target)
    (replaced : signature.replaceThis ty target = some result) : signature.Sturdy result := by
  induction target generalizing ty with
  | applied feature args outer isRef isThis _ outerSturdy =>
    rw [replaceThis] at replaced
    obtain ⟨middle, middleEq, replaced⟩ := Option.bind_eq_some_iff.mp replaced
    have middleSturdy : signature.Sturdy middle :=
      transform_sturdy (fun _ _ => replaceThisByLevelAt_settles) targetSturdy sturdy middleEq
    cases outer with
    | none =>
      obtain rfl := Option.some.inj replaced
      exact middleSturdy
    | some around =>
      exact outerSturdy around rfl middleSturdy
        ((sturdy_applied_iff.mp targetSturdy).2 around rfl) replaced
  | _ =>
    rw [replaceThis] at replaced
    obtain ⟨middle, middleEq, replaced⟩ := Option.bind_eq_some_iff.mp replaced
    obtain rfl := Option.some.inj replaced
    exact transform_sturdy (fun _ _ => replaceThisByLevelAt_settles) targetSturdy sturdy middleEq

theorem replaceThis_applied {isRef : Bool}
    (replaced : signature.replaceThis (.applied feature args outer isRef false) target =
      some result) : ∃ args' outer', result = .applied feature args' outer' isRef false := by
  have atLevel : ∀ {level result : Ty} {args : List Ty} {outer : Option Ty},
      signature.replaceThisByLevel level (.applied feature args outer isRef false) = some result →
        ∃ args' outer', result = .applied feature args' outer' isRef false := by
    intro level result args outer replaced
    rw [replaceThisByLevel, Ty.transform_of_left rfl] at replaced
    obtain ⟨newArgs, _, replaced⟩ := Option.bind_eq_some_iff.mp replaced
    obtain ⟨newOuter, _, replaced⟩ := Option.bind_eq_some_iff.mp replaced
    exact ⟨newArgs, newOuter, (Option.some.inj replaced).symm⟩
  induction target generalizing args outer with
  | applied _ _ around _ _ _ ih =>
    rw [replaceThis] at replaced
    obtain ⟨middle, middleEq, replaced⟩ := Option.bind_eq_some_iff.mp replaced
    obtain ⟨args', outer', rfl⟩ := atLevel middleEq
    cases around with
    | none => exact ⟨args', outer', (Option.some.inj replaced).symm⟩
    | some around => exact ih around rfl replaced
  | _ =>
    rw [replaceThis] at replaced
    obtain ⟨middle, middleEq, replaced⟩ := Option.bind_eq_some_iff.mp replaced
    obtain rfl := Option.some.inj replaced
    exact atLevel middleEq

end Signature

end FeatureTypes

import FeatureTypes.Proofs.Assignability.Direct
import FeatureTypes.Proofs.Meaning.Climbing

/-!
# What the summands of a choice matter for

Substituting, looking through outer types and going up to ancestors do not read the summands
of any choice.
-/

namespace FeatureTypes

variable {left right signature : Signature}

/-! ## Signatures without summands -/

/-- The outline of a feature that is no choice. -/
@[simps]
def Outline.withoutSummands (outline : Outline) : Outline :=
  { outline with summands := none }

namespace Signature

/-- The signature without its choices. -/
@[simps inherits]
def withoutSummands (signature : Signature) : Signature where
  feature id := (signature.feature id).map Outline.withoutSummands
  inherits := signature.inherits

variable (signature : Signature)

@[simp]
theorem withoutSummands_bind {α : Type} (id : FeatureId) (next : Outline → Option α) :
    (signature.withoutSummands.feature id).bind next =
      (signature.feature id).bind fun outline => next outline.withoutSummands :=
  Option.bind_map ..

@[simp]
theorem withoutSummands_formal? : signature.withoutSummands.formal? = signature.formal? := by
  funext id
  simp [formal?]

@[simp]
theorem withoutSummands_constraint? :
    signature.withoutSummands.constraint? = signature.constraint? := by
  funext id
  simp [constraint?]

@[simp]
theorem withoutSummands_outerTypeBy :
    signature.withoutSummands.outerTypeBy = signature.outerTypeBy := by
  funext typeOf id
  simp [outerTypeBy]

@[simp]
theorem withoutSummands_selfTypeWithin (depth : Nat) :
    signature.withoutSummands.selfTypeWithin depth = signature.selfTypeWithin depth := by
  induction depth with
  | zero => rfl
  | succ depth ih =>
    funext id
    simp [selfTypeWithin, ih]

@[simp]
theorem withoutSummands_dropThisFormals :
    signature.withoutSummands.dropThisFormals = signature.dropThisFormals := by
  funext ty
  rw [dropThisFormals, dropThisFormals]
  congr 1
  funext part
  cases part <;> simp [dropThisFormalAt, dropThisFormal, selfType]

@[simp]
theorem withoutSummands_replaceThisByLevel :
    signature.withoutSummands.replaceThisByLevel = signature.replaceThisByLevel := by
  have levels : signature.withoutSummands.levelInherits = signature.levelInherits := by
    funext level id
    cases level <;> simp [levelInherits, levelFeature?]
  funext level ty
  rw [replaceThisByLevel, replaceThisByLevel]
  congr 1
  funext part
  unfold replaceThisByLevelAt
  rw [levels]

@[simp]
theorem withoutSummands_replaceThis :
    signature.withoutSummands.replaceThis = signature.replaceThis := by
  funext ty target
  induction target using Ty.childrenInduction generalizing ty with
  | step target ih =>
    rw [replaceThis.eq_def, replaceThis.eq_def, withoutSummands_replaceThisByLevel]
    congr 1
    funext replaced
    split
    next outer _ _ => exact ih outer (by simp [Ty.children]) replaced
    next => rfl

@[simp]
theorem withoutSummands_trailingOpen? :
    signature.withoutSummands.trailingOpen? = signature.trailingOpen? := by
  funext owner ty rest
  simp [trailingOpen?]

section

variable (call : FeatureId → List Ty → Ty → Option Ty)

@[simp]
theorem withoutSummands_substituteList (owner : FeatureId) (actuals list : List Ty) :
    signature.withoutSummands.substituteList call owner actuals list =
      signature.substituteList call owner actuals list := by
  have each : signature.withoutSummands.substituteEach call owner actuals list =
      signature.substituteEach call owner actuals list := by
    induction list with
    | nil => rfl
    | cons ty rest ih => simp [substituteEach, ih]
  simp [substituteList, each]

@[simp]
theorem withoutSummands_seenFrom :
    signature.withoutSummands.seenFrom call = signature.seenFrom call := by
  funext self ty
  induction self using Ty.childrenInduction generalizing ty with
  | step self ih =>
    rw [seenFrom.eq_def, seenFrom.eq_def]
    rcases self with _ | _ | _ | _ | ⟨id, args, _ | outer, _, _⟩ <;> simp
    simp [ih outer (by simp [Ty.children])]

@[simp]
theorem withoutSummands_substituteStep :
    signature.withoutSummands.substituteStep call = signature.substituteStep call := by
  funext owner actuals target
  simp [substituteStep, substituteFormal, settleArgs]

end

@[simp]
theorem withoutSummands_substitute :
    signature.withoutSummands.substitute = signature.substitute := by
  funext owner actuals target
  simp [substitute]

@[simp]
theorem withoutSummands_ancestorSeenFrom :
    signature.withoutSummands.ancestorSeenFrom = signature.ancestorSeenFrom := by
  have views : signature.withoutSummands.viewStep = signature.viewStep := by
    funext view source target
    simp [viewStep]
  funext actual ancestor
  simp [ancestorSeenFrom, substituteVia, views]

variable {signature}

/-! ## Signatures that differ in summands -/

section

variable (agree : left.withoutSummands = right.withoutSummands)

include agree

theorem eq_of_withoutSummands {α : Type} (operation : Signature → α)
    (blind : ∀ signature : Signature, operation signature.withoutSummands = operation signature) :
    operation left = operation right := by
  rw [← blind left, agree, blind right]

theorem Above.of_withoutSummands {actual ancestor : Ty} (isAbove : left.Above actual ancestor) :
    right.Above actual ancestor := by
  cases isAbove with
  | constraint declared proper =>
    rw [eq_of_withoutSummands agree constraint? withoutSummands_constraint?] at declared
    exact .constraint declared proper
  | @parent feature args outer isRef isThis outline parent _ declared member seen =>
    have featureEq : right.withoutSummands.feature feature = some outline.withoutSummands := by
      rw [← agree]
      simp [withoutSummands, declared]
    obtain ⟨outline', declared', outlineEq⟩ := Option.map_eq_some_iff.mp featureEq
    rw [← outline.withoutSummands_parents, ← outlineEq] at member
    rw [eq_of_withoutSummands agree ancestorSeenFrom withoutSummands_ancestorSeenFrom] at seen
    exact .parent declared' member seen

/-- A target that is no choice takes the same values, whatever the summands of choices are: on
the way up from the value the target stays the same. -/
theorem Takes.of_withoutSummands {target actual : Ty} (takes : left.Takes target actual)
    (notFormal : target.isFormal = false) (notChoice : left.isChoice target = some false) :
    right.Takes target actual := by
  have dropsEq := eq_of_withoutSummands agree dropThisFormals withoutSummands_dropThisFormals
  induction takes with
  | atOnce targetPlain actualPlain takes =>
    rw [dropsEq] at targetPlain actualPlain
    exact .atOnce targetPlain actualPlain takes
  | above targetPlain actualPlain counts isAbove _ ih =>
    simp only [isChoice, ← appliedFeature?_of_dropped targetPlain notFormal] at notChoice
    have plainNotFormal := counts
    simp only [Ty.ancestorsCount, Bool.and_eq_true, Bool.not_eq_true'] at plainNotFormal
    rw [dropsEq] at targetPlain actualPlain
    exact .above targetPlain actualPlain counts (isAbove.of_withoutSummands agree)
      (ih plainNotFormal.1.1 notChoice)
  | @summand _ _ plainTarget _ _ _ targetPlain _ _ hasSummands _ _ _ =>
    simp only [isChoice, ← appliedFeature?_of_dropped targetPlain notFormal] at notChoice
    cases plainTarget with
    | applied feature args outer isRef isThis =>
      obtain ⟨outline, declared, hasSummands⟩ := Option.bind_eq_some_iff.mp hasSummands
      cases isChoice : outline.summands with
      | none => simp [isChoice] at hasSummands
      | some summands => simp [Ty.appliedFeature?, declared, isChoice] at notChoice
    | _ => cases hasSummands

end

/-! ## Formals of the owner -/

section

variable {id : FormalId} {boxed : Bool} {owner : FeatureId} {actuals : List Ty} {result : Ty}

/-- What a substitution does to the formal `id`, judged from whether the `owner` inherits from
the feature of the formal.  If so, it does not come to a result where that feature is its own
ancestor, and otherwise it leaves the formal alone. -/
structure SparesFormal (signature : Signature) (id : FormalId) (boxed : Bool) (owner : FeatureId)
    (result : Ty) : Prop where
  apart : Relation.TransGen signature.HasParent id.feature id.feature →
    ¬ Relation.ReflTransGen signature.HasParent owner id.feature
  kept : ¬ Relation.ReflTransGen signature.HasParent owner id.feature → result = .formal id boxed

theorem foldlM_sparesFormal (substitute : FeatureId → List Ty → Ty → Option Ty)
    (spares : ∀ owner actuals result, substitute owner actuals (.formal id boxed) = some result →
      signature.SparesFormal id boxed owner result) {parents : List ParentOutline}
    (folded : parents.foldlM (fun ty parent => substitute parent.ancestor parent.actuals ty)
      (.formal id boxed) = some result) :
    (Relation.TransGen signature.HasParent id.feature id.feature → ∀ parent ∈ parents,
      ¬ Relation.ReflTransGen signature.HasParent parent.ancestor id.feature) ∧
    ((∀ parent ∈ parents,
      ¬ Relation.ReflTransGen signature.HasParent parent.ancestor id.feature) →
        result = .formal id boxed) := by
  induction parents with
  | nil =>
    obtain rfl := Option.some.inj folded
    simp
  | cons parent rest ih =>
    rw [List.foldlM_cons] at folded
    obtain ⟨middle, middleEq, folded⟩ := Option.bind_eq_some_iff.mp folded
    have spared := spares _ _ _ middleEq
    constructor
    · intro cyclic
      rw [spared.kept (spared.apart cyclic)] at folded
      exact List.forall_mem_cons.mpr ⟨spared.apart cyclic, (ih folded).1 cyclic⟩
    · intro apart
      rw [List.forall_mem_cons] at apart
      rw [spared.kept apart.1] at folded
      exact (ih folded).2 apart.2

theorem substitute_sparesFormal
    (substituted : signature.substitute owner actuals (.formal id boxed) = some result) :
    signature.SparesFormal id boxed owner result := by
  refine solution_induction (motive := fun input result => input.2.2 = .formal id boxed →
    signature.SparesFormal id boxed input.1 result) ?_ substituted rfl
  rintro call spares ⟨owner, actuals, _⟩ result settled rfl
  obtain ⟨outline, declared, settled⟩ := Option.bind_eq_some_iff.mp settled
  obtain ⟨ty, folded, settled⟩ := Option.bind_eq_some_iff.mp settled
  obtain ⟨apart, kept⟩ := foldlM_sparesFormal (fun owner actuals ty => call (owner, actuals, ty))
    (fun owner actuals result settled => spares (owner, actuals, _) result settled rfl) folded
  refine ⟨fun cyclic inherits => ?_, fun foreign => ?_⟩
  · obtain ⟨_, ⟨outline', declared', parent, member, rfl⟩, path⟩ :=
      Relation.TransGen.head'_iff.mp (.trans_right inherits cyclic)
    obtain rfl := Option.some.inj (declared.symm.trans declared')
    exact apart cyclic parent member path
  · obtain rfl := kept fun parent member path =>
      foreign (.head ⟨outline, declared, parent, member, rfl⟩ path)
    have notOwn : id.feature ≠ owner := fun own => foreign (own ▸ .refl)
    simp only [substituteFormal, if_pos notOwn] at settled
    exact (Option.some.inj settled).symm

/-- A formal of the owner gives way to its actual, wherever a substitution comes to a result. -/
theorem FormalsClosed.substitute_own (closed : signature.FormalsClosed)
    (own : id.feature = owner)
    (substituted : signature.substitute owner actuals (.formal id false) = some result) :
    result = actuals[id.index]?.getD .error := by
  subst own
  have acyclic : ¬ Relation.TransGen signature.HasParent id.feature id.feature :=
    fun cyclic => (substitute_sparesFormal substituted).apart cyclic .refl
  rw [substitute_of_open rfl] at substituted
  obtain ⟨outline, declared, substituted⟩ := Option.bind_eq_some_iff.mp substituted
  obtain ⟨ty, folded, substituted⟩ := Option.bind_eq_some_iff.mp substituted
  obtain rfl := (foldlM_sparesFormal signature.substitute (fun _ _ _ => substitute_sparesFormal)
    folded).2 fun parent member inherits =>
      acyclic (.head' ⟨outline, declared, parent, member, rfl⟩ inherits)
  simp only [substituteFormal, ne_eq, not_true_eq_false, if_false] at substituted
  obtain ⟨formal?, found, substituted⟩ := Option.bind_eq_some_iff.mp substituted
  rw [closed.isOpen_eq found] at substituted
  exact (Option.some.inj substituted).symm

end

/-! ## Permuted summands -/

/-- What an element of a list becomes, for a formal of the owner without asking the parents. -/
noncomputable def fillOne (signature : Signature) (owner : FeatureId) (actuals : List Ty)
    (ty : Ty) : Option Ty :=
  match ty with
  | .formal id false =>
    if id.feature = owner then some (actuals[id.index]?.getD .error)
    else signature.substitute owner actuals ty
  | _ => signature.substitute owner actuals ty

theorem FormalsClosed.substituteList_forall₂ (closed : signature.FormalsClosed)
    {owner : FeatureId} {outline : Outline} (declared : signature.feature owner = some outline)
    (numbered : ∀ (position : Nat) (formal : FormalOutline),
      outline.formals[position]? = some formal → formal.id = ⟨owner, position⟩)
    {actuals list list' : List Ty} (fits : actuals.length = outline.formals.length)
    (substituted : signature.substituteList signature.substitute owner actuals list = some list') :
    List.Forall₂ (fun ty result => signature.fillOne owner actuals ty = some result) list
      list' := by
  rw [substituteList, declared] at substituted
  simp only [Option.bind_eq_bind, Option.bind_some] at substituted
  split at substituted
  next isFormals =>
    obtain rfl := Option.some.inj substituted
    subst isFormals
    refine List.forall₂_iff_get.mpr ⟨by simp [fits], fun position bound bound' => ?_⟩
    have idEq := numbered position _ (List.getElem?_eq_getElem (by simpa using bound))
    simp [fillOne, idEq, List.getElem?_eq_getElem bound']
  next =>
    refine (closed.substituteEach_forall₂ substituted).imp fun ty result substituted => ?_
    unfold fillOne
    split
    next id =>
      split
      next own => rw [closed.substitute_own own substituted]
      next => exact substituted
    next => exact substituted

theorem perm_of_forall₂ {α β : Type} {operation : α → Option β} {list list' : List α}
    {results results' : List β} (permuted : list.Perm list')
    (gives : List.Forall₂ (fun item result => operation item = some result) list results)
    (gives' : List.Forall₂ (fun item result => operation item = some result) list' results') :
    results.Perm results' :=
  List.rel_perm_imp (fun _ _ _ given given' => Option.some.inj (given.symm.trans given'))
    gives gives' permuted

/-- If the declared summands are permuted, then so are the summands of a choice type. -/
theorem summands?_perm (agree : left.withoutSummands = right.withoutSummands)
    (closed : left.FormalsClosed) {choice : FeatureId} {outline outline' : Outline}
    (declared : left.feature choice = some outline)
    (declared' : right.feature choice = some outline')
    (numbered : ∀ (position : Nat) (formal : FormalOutline),
      outline.formals[position]? = some formal → formal.id = ⟨choice, position⟩)
    {list list' : List Ty} (isChoice : outline.summands = some list)
    (isChoice' : outline'.summands = some list') (permuted : list.Perm list') {args : List Ty}
    {outer : Option Ty} {isRef isThis : Bool} (fits : args.length = outline.formals.length)
    {seen seen' : Option (List Ty)}
    (leftHas : left.summands? (.applied choice args outer isRef isThis) = some seen)
    (rightHas : right.summands? (.applied choice args outer isRef isThis) = some seen') :
    ∃ summands summands', seen = some summands ∧ seen' = some summands' ∧
      summands.Perm summands' := by
  have listsEq : left.substituteList left.substitute = right.substituteList right.substitute :=
    eq_of_withoutSummands agree (fun signature => signature.substituteList signature.substitute)
      fun signature => by funext; simp
  have replacesEq := eq_of_withoutSummands agree replaceThis withoutSummands_replaceThis
  simp only [summands?, declared, isChoice, declared', isChoice', ← listsEq, ← replacesEq,
    Option.bind_eq_bind, Option.bind_some] at leftHas rightHas
  obtain ⟨substituted, substitutedEq, leftHas⟩ := Option.bind_eq_some_iff.mp leftHas
  obtain ⟨substituted', substitutedEq', rightHas⟩ := Option.bind_eq_some_iff.mp rightHas
  obtain ⟨summands, replaced, leftHas⟩ := Option.bind_eq_some_iff.mp leftHas
  obtain ⟨summands', replaced', rightHas⟩ := Option.bind_eq_some_iff.mp rightHas
  have substitutedPerm := perm_of_forall₂ permuted
    (closed.substituteList_forall₂ declared numbered fits substitutedEq)
    (closed.substituteList_forall₂ declared numbered fits substitutedEq')
  exact ⟨summands, summands', (Option.some.inj leftHas).symm, (Option.some.inj rightHas).symm,
    perm_of_forall₂ substitutedPerm (mapM_eq_some_iff.mp replaced) (mapM_eq_some_iff.mp replaced')⟩

/-! ## Overlapping types -/

/-- A value of type `actual` may be assigned to `target` without being wrapped into a choice. -/
def TakesDirectly (signature : Signature) (target actual : Ty) : Prop :=
  ∃ choice, signature.isChoice target = some choice ∧
    if choice then target = actual else signature.Takes target actual

/-- The types are equal, or a value of one of them may be assigned to the other without being
wrapped.  What a formal stands for is not known. -/
def Overlap (signature : Signature) (first second : Ty) : Prop :=
  first = second ∨ (first.isFormal = false ∧ second.isFormal = false ∧
    (signature.TakesDirectly first second ∨ signature.TakesDirectly second first))

/-- Two types that could be typed overlap. -/
def Clash (signature : Signature) (first second : Ty) : Prop :=
  first ≠ .error ∧ second ≠ .error ∧ signature.Overlap first second

theorem clash_comm {first second : Ty} :
    signature.Clash first second ↔ signature.Clash second first := by
  simp only [Clash, Overlap, eq_comm (a := first), and_left_comm, or_comm]

theorem Clash.of_withoutSummands (agree : left.withoutSummands = right.withoutSummands)
    (choicesEq : left.isChoice = right.isChoice) {first second : Ty}
    (clash : left.Clash first second) : right.Clash first second := by
  have direct {target actual : Ty} (notFormal : target.isFormal = false)
      (takes : left.TakesDirectly target actual) : right.TakesDirectly target actual := by
    obtain ⟨choice, isChoice, takes⟩ := takes
    refine ⟨choice, choicesEq ▸ isChoice, ?_⟩
    cases choice with
    | true => exact takes
    | false => exact Takes.of_withoutSummands agree takes notFormal isChoice
  refine ⟨clash.1, clash.2.1, clash.2.2.imp_right ?_⟩
  rintro ⟨firstKnown, secondKnown, takes⟩
  exact ⟨firstKnown, secondKnown, takes.imp (direct firstKnown) (direct secondKnown)⟩

end Signature

end FeatureTypes

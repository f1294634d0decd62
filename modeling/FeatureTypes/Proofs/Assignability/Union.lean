import FeatureTypes.Proofs.Assignability.Direct
import FeatureTypes.Proofs.Meaning.Climbing
import FeatureTypes.Proofs.Meaning.Formals

/-!
# The union of two types and their order

Of two types that take each other's values the union is the first one.  There are few such
types if there are no cycles in the inheritance graph: the two stand for the same type, or
they are choices, or something above one of them cannot be typed.
-/

namespace FeatureTypes

variable {left right : Ty}

namespace Ty

theorem exists_applied_of_isRef {ty : Ty} (notFormal : ty.isFormal = false)
    (isRef : ty.isRef = true) :
    ∃ feature args outer isThis, ty = .applied feature args outer true isThis := by
  cases ty with
  | applied feature args outer isRef' isThis =>
    obtain rfl : isRef' = true := isRef
    exact ⟨feature, args, outer, isThis, rfl⟩
  | formal id boxed => simp [Ty.isFormal] at notFormal
  | _ => simp [Ty.isRef] at isRef

theorem isRef_of_asRef_ne {ty : Ty} (changes : ty.asRef ≠ ty) :
    ty.isRef = false ∧ ty.asRef.isRef = true := by
  cases ty with
  | applied feature args outer isRef isThis =>
    cases isRef with
    | false => exact ⟨rfl, rfl⟩
    | true => exact absurd rfl changes
  | formal id boxed =>
    cases boxed with
    | false => exact ⟨rfl, rfl⟩
    | true => exact absurd rfl changes
  | _ => exact absurd rfl changes

theorem isAbsorbing_asRef (ty : Ty) : ty.asRef.isAbsorbing = ty.isAbsorbing := by
  cases ty <;> rfl

theorem asRef_eq_void_iff {ty : Ty} : ty.asRef = .void ↔ ty = .void := by
  cases ty <;> simp [asRef]

end Ty

namespace Signature

variable {signature : Signature}

open Classical in
/-- The one of two types that takes the values of both, held through references if need be. -/
noncomputable def union (signature : Signature) (left right : Ty) : Ty :=
  if left = .error ∨ right = .error then .error
  else if left = .undefined ∨ right = .undefined then .undefined
  else if left = .void then right
  else if right = .void then left
  else if signature.Takes left right then left
  else if signature.Takes right left then right
  else if signature.Takes left right.asRef then left
  else if signature.Takes right left.asRef then right
  else .undefined

/-- Each of the types takes the other one, or neither does, but each takes the other one held
through a reference. -/
def Contested (signature : Signature) (left right : Ty) : Prop :=
  (signature.Takes left right ∧ signature.Takes right left) ∨
    (¬signature.Takes left right ∧ ¬signature.Takes right left ∧
      signature.Takes left right.asRef ∧ signature.Takes right left.asRef)

/-- Why each of two types may take the values of the other one: they stand for one type, both
are choices, or one of two constructed references has the error type above it. -/
inductive Rivals (signature : Signature) (left right : Ty) : Prop
  | alike {plain : Ty} (leftPlain : signature.dropThisFormals left = some plain)
      (rightPlain : signature.dropThisFormals right = some plain) : Rivals signature left right
  | choices {plainLeft plainRight : Ty}
      (leftPlain : signature.dropThisFormals left = some plainLeft)
      (rightPlain : signature.dropThisFormals right = some plainRight)
      (byValue : plainLeft.isRef = false ∧ plainRight.isRef = false)
      (areChoices : signature.isChoice plainLeft = some true ∧
        signature.isChoice plainRight = some true) : Rivals signature left right
  | astray {plainLeft plainRight : Ty}
      (leftPlain : signature.dropThisFormals left = some plainLeft)
      (rightPlain : signature.dropThisFormals right = some plainRight)
      (areRefs : plainLeft.isRef = true ∧ plainRight.isRef = true)
      (areApplied : plainLeft.appliedFeature? ≠ none ∧ plainRight.appliedFeature? ≠ none)
      (climbs : signature.Climbs left .error ∨ signature.Climbs right .error) :
      Rivals signature left right

/-! ## Types that take each other -/

theorem isChoice_of_summands {ty : Ty} {summands : List Ty}
    (isChoice : signature.summands? ty = some (some summands)) :
    signature.isChoice ty = some true := by
  cases ty with
  | applied feature args outer isRef isThis =>
    obtain ⟨outline, declared, isChoice⟩ := Option.bind_eq_some_iff.mp isChoice
    cases declares : outline.summands with
    | none => simp [declares] at isChoice
    | some => simp [Signature.isChoice, Ty.appliedFeature?, declared, declares]
  | _ => simp [summands?] at isChoice

theorem takes_congr {target actual actual' : Ty}
    (same : signature.dropThisFormals actual = signature.dropThisFormals actual') :
    signature.Takes target actual ↔ signature.Takes target actual' := by
  have transfers : ∀ {first second : Ty},
      signature.dropThisFormals first = signature.dropThisFormals second →
        signature.Takes target first → signature.Takes target second := by
    intro first second same takes
    obtain ⟨plainTarget, plain, targetPlain, firstPlain⟩ := takes.plain
    rw [signature.takes_iff targetPlain (same ▸ firstPlain)]
    exact (signature.takes_iff targetPlain firstPlain).mp takes
  exact ⟨transfers same, transfers same.symm⟩

theorem Takes.cases_of_proper {target actual plainTarget plainActual : Ty}
    (takes : signature.Takes target actual)
    (targetPlain : signature.dropThisFormals target = some plainTarget)
    (actualPlain : signature.dropThisFormals actual = some plainActual)
    (targetProper : target.isAbsorbing = false) (actualProper : actual.isAbsorbing = false) :
    plainTarget = plainActual ∨ plainActual = .void ∨
      (plainTarget.ancestorsCount plainActual = true ∧
        ∃ ancestor, signature.Above plainActual ancestor ∧ signature.Takes plainTarget ancestor) ∨
      (plainTarget.isRef = false ∧ signature.isChoice plainTarget = some true) := by
  have plainProper : ∀ {ty plain : Ty}, signature.dropThisFormals ty = some plain →
      ty.isAbsorbing = false → plain.isAbsorbing = false := by
    intro ty plain dropped proper
    by_contra absorbing
    simp [isAbsorbing_of_dropped dropped (by simpa using absorbing)] at proper
  rcases (signature.takes_iff targetPlain actualPlain).mp takes with
    atOnce | above | ⟨byValue, summands, isChoice, _⟩
  · simp only [Ty.takesAtOnce, plainProper targetPlain targetProper,
      plainProper actualPlain actualProper, Bool.or_false, Bool.or_eq_true,
      decide_eq_true_eq] at atOnce
    exact atOnce.imp_right Or.inl
  · exact Or.inr (Or.inr (Or.inl above))
  · exact Or.inr (Or.inr (Or.inr ⟨byValue, isChoice_of_summands isChoice⟩))

theorem eq_void_of_dropped {ty : Ty} (dropped : signature.dropThisFormals ty = some .void) :
    ty = .void := by
  cases ty with
  | formal id boxed =>
    rw [dropThisFormals_formal] at dropped
    rcases dropThisFormal_cases dropped with isFormal | ⟨_, _, self, _, _, selfEq, isSelf⟩
    · cases isFormal
    · obtain ⟨args, outer, isRef, rfl⟩ := selfType_eq_applied selfEq
      cases isSelf
  | applied feature args outer isRef isThis =>
    obtain ⟨_, _, _, _, isApplied⟩ := dropThisFormals_applied dropped
    cases isApplied
  | _ =>
    obtain isVoid := Option.some.inj dropped
    first | rfl | cases isVoid

theorem Takes.eq_void {actual : Ty} (takes : signature.Takes .void actual)
    (proper : actual.isAbsorbing = false) : actual = .void := by
  obtain ⟨_, plain, _, actualPlain⟩ := takes.plain
  rcases takes.cases_of_proper rfl actualPlain rfl proper with
    isVoid | isVoid | ⟨counts, _⟩ | ⟨_, isChoice⟩
  · exact eq_void_of_dropped (isVoid ▸ actualPlain)
  · exact eq_void_of_dropped (isVoid ▸ actualPlain)
  · simp [Ty.ancestorsCount, Ty.isRef] at counts
  · simp [Signature.isChoice, Ty.appliedFeature?] at isChoice

theorem boxed_of_takes_asRef {target actual plainActual : Ty}
    (refuses : ¬signature.Takes target actual) (takes : signature.Takes target actual.asRef)
    (actualPlain : signature.dropThisFormals actual = some plainActual) :
    signature.dropThisFormals actual.asRef = some plainActual.asRef ∧
      plainActual.isRef = false ∧ plainActual.asRef.isRef = true := by
  obtain ⟨_, boxed, _, boxedPlain⟩ := takes.plain
  obtain ⟨plain, plainEq, unchanged⟩ := signature.dropThisFormals_asRef_cases boxedPlain
  obtain rfl := Option.some.inj (actualPlain.symm.trans plainEq)
  have differs : boxed ≠ plainActual := by
    rintro rfl
    exact refuses ((takes_congr (boxedPlain.trans actualPlain.symm)).mp takes)
  obtain rfl := unchanged.resolve_left differs
  exact ⟨boxedPlain, Ty.isRef_of_asRef_ne differs⟩

theorem isChoice_of_takes_asRef {plainLeft plainRight : Ty} (leftProper : left.isAbsorbing = false)
    (rightProper : right.isAbsorbing = false) (refuses : ¬signature.Takes left right)
    (takes : signature.Takes left right.asRef)
    (leftPlain : signature.dropThisFormals left = some plainLeft)
    (rightPlain : signature.dropThisFormals right = some plainRight)
    (byValue : plainLeft.isRef = false) : signature.isChoice plainLeft = some true := by
  obtain ⟨boxedPlain, _, isBoxed⟩ := boxed_of_takes_asRef refuses takes rightPlain
  rw [← Ty.isAbsorbing_asRef] at rightProper
  rcases takes.cases_of_proper leftPlain boxedPlain leftProper rightProper with
    rfl | isVoid | ⟨counts, _⟩ | ⟨_, isChoice⟩
  · simp [byValue] at isBoxed
  · simp [isVoid, Ty.isRef] at isBoxed
  · simp [Ty.ancestorsCount, byValue] at counts
  · exact isChoice

section

variable (spelled : signature.ParentsSpelled)
  (acyclic : ∀ id, ¬Relation.TransGen signature.HasParent id id) {left right : Ty}

include spelled acyclic

theorem rivals_of_above {plainLeft plainRight ancestor ancestor' : Ty}
    (leftPlain : signature.dropThisFormals left = some plainLeft)
    (rightPlain : signature.dropThisFormals right = some plainRight)
    (counts : plainLeft.ancestorsCount plainRight = true)
    (counts' : plainRight.ancestorsCount plainLeft = true)
    (isAbove : signature.Above plainRight ancestor) (takes : signature.Takes plainLeft ancestor)
    (isAbove' : signature.Above plainLeft ancestor')
    (takes' : signature.Takes plainRight ancestor') : signature.Rivals left right := by
  simp only [Ty.ancestorsCount, Bool.and_eq_true, Bool.not_eq_true'] at counts counts'
  obtain ⟨feature, args, outer, isThis, rfl⟩ := Ty.exists_applied_of_isRef counts.1.1 counts.1.2
  obtain ⟨feature', args', outer', isThis', rfl⟩ := Ty.exists_applied_of_isRef counts'.1.1 counts.2
  refine .astray leftPlain rightPlain ⟨rfl, rfl⟩
    ⟨Option.some_ne_none feature, Option.some_ne_none feature'⟩ ?_
  rcases isAbove'.inherits_or_climbs spelled leftPlain takes' with inherits | climbs
  · rcases isAbove.inherits_or_climbs spelled rightPlain takes with inherits' | climbs
    · exact absurd (inherits.trans inherits') (acyclic feature)
    · exact Or.inr climbs
  · exact Or.inl climbs

variable (leftProper : left.isAbsorbing = false) (rightProper : right.isAbsorbing = false)

include leftProper rightProper

theorem rivals_of_takes (takes : signature.Takes left right) (takes' : signature.Takes right left) :
    signature.Rivals left right := by
  obtain ⟨plainLeft, plainRight, leftPlain, rightPlain⟩ := takes.plain
  by_cases same : plainLeft = plainRight
  · subst same
    exact .alike leftPlain rightPlain
  -- Everything takes the void type, but this takes only itself.
  have leftNotVoid : plainLeft ≠ .void := by
    rintro rfl
    obtain rfl := eq_void_of_dropped leftPlain
    obtain rfl := takes.eq_void rightProper
    exact same (Option.some.inj rightPlain)
  have rightNotVoid : plainRight ≠ .void := by
    rintro rfl
    obtain rfl := eq_void_of_dropped rightPlain
    obtain rfl := takes'.eq_void leftProper
    exact same (Option.some.inj leftPlain).symm
  have cases := takes.cases_of_proper leftPlain rightPlain leftProper rightProper
  have cases' := takes'.cases_of_proper rightPlain leftPlain rightProper leftProper
  rcases (cases.resolve_left same).resolve_left rightNotVoid with
    ⟨counts, ancestor, isAbove, takesAncestor⟩ | ⟨byValue, isChoice⟩
  all_goals rcases (cases'.resolve_left (Ne.symm same)).resolve_left leftNotVoid with
    ⟨counts', ancestor', isAbove', takesAncestor'⟩ | ⟨byValue', isChoice'⟩
  · exact rivals_of_above spelled acyclic leftPlain rightPlain counts counts' isAbove
      takesAncestor isAbove' takesAncestor'
  · simp [Ty.ancestorsCount, byValue'] at counts
  · simp [Ty.ancestorsCount, byValue] at counts'
  · exact .choices leftPlain rightPlain ⟨byValue, byValue'⟩ ⟨isChoice, isChoice'⟩

/-- Types that take each other are rivals: there is no other way. -/
theorem rivals_of_contested (contested : signature.Contested left right) :
    signature.Rivals left right := by
  rcases contested with ⟨takes, takes'⟩ | ⟨refuses, refuses', takes, takes'⟩
  · exact rivals_of_takes spelled acyclic leftProper rightProper takes takes'
  -- It matters on both sides whether the type is boxed, so both are values.
  obtain ⟨plainLeft, _, leftPlain, _⟩ := takes.plain
  obtain ⟨plainRight, _, rightPlain, _⟩ := takes'.plain
  obtain ⟨_, rightByValue, _⟩ := boxed_of_takes_asRef refuses takes rightPlain
  obtain ⟨_, leftByValue, _⟩ := boxed_of_takes_asRef refuses' takes' leftPlain
  exact .choices leftPlain rightPlain ⟨leftByValue, rightByValue⟩
    ⟨isChoice_of_takes_asRef leftProper rightProper refuses takes leftPlain rightPlain leftByValue,
      isChoice_of_takes_asRef rightProper leftProper refuses' takes' rightPlain leftPlain
        rightByValue⟩

end

/-! ## The order of the types -/

theorem Contested.symm (contested : signature.Contested left right) :
    signature.Contested right left :=
  contested.imp And.symm fun ⟨refuses, refuses', takes, takes'⟩ =>
    ⟨refuses', refuses, takes', takes⟩

theorem union_comm_of_absorbing (absorbing : left.isAbsorbing = true ∨ right.isAbsorbing = true) :
    signature.union left right = signature.union right left := by
  simp only [Ty.isAbsorbing, Bool.or_eq_true, decide_eq_true_eq] at absorbing
  unfold union
  grind

theorem union_comm_of_not_contested (uncontested : ¬signature.Contested left right) :
    signature.union left right = signature.union right left := by
  unfold Contested at uncontested
  unfold union
  grind

theorem union_of_contested (leftProper : left.isAbsorbing = false)
    (rightProper : right.isAbsorbing = false) (contested : signature.Contested left right) :
    signature.union left right = left := by
  simp only [Ty.isAbsorbing, Bool.or_eq_false_iff, decide_eq_false_iff_not] at leftProper
  have rightProper' := rightProper
  simp only [Ty.isAbsorbing, Bool.or_eq_false_iff, decide_eq_false_iff_not] at rightProper'
  by_cases leftVoid : left = .void
  · subst leftVoid
    obtain rfl : right = .void := by
      rcases contested with ⟨takes, _⟩ | ⟨_, _, takes, _⟩
      · exact takes.eq_void rightProper
      · exact Ty.asRef_eq_void_iff.mp (takes.eq_void (by rwa [Ty.isAbsorbing_asRef]))
    rfl
  unfold union
  rcases contested with ⟨takes, _⟩ | ⟨refuses, refuses', takes, _⟩
  · simp [leftProper, rightProper', leftVoid, takes]
  · simp [leftProper, rightProper', leftVoid, refuses, refuses', takes]

/-- The order matters just where each of two types takes the other, but not everything. -/
theorem union_ne_iff (signature : Signature) (left right : Ty) :
    signature.union left right ≠ signature.union right left ↔
      left ≠ right ∧ left.isAbsorbing = false ∧ right.isAbsorbing = false ∧
        signature.Contested left right := by
  constructor
  · intro differ
    refine ⟨?_, ?_, ?_, ?_⟩
    · rintro rfl
      exact differ rfl
    · by_contra absorbing
      exact differ (union_comm_of_absorbing (.inl (Bool.not_eq_false _ ▸ absorbing)))
    · by_contra absorbing
      exact differ (union_comm_of_absorbing (.inr (Bool.not_eq_false _ ▸ absorbing)))
    · by_contra uncontested
      exact differ (union_comm_of_not_contested uncontested)
  · rintro ⟨differ, leftProper, rightProper, contested⟩
    rwa [union_of_contested leftProper rightProper contested,
      union_of_contested rightProper leftProper contested.symm]

end Signature

namespace Checker

variable {signature : Signature} {checker : Checker}

theorem finds_ite {question : CheckM Bool} {prop : Prop} {_ : Decidable prop}
    (asks : Finds signature checker question fun _ holds => holds = true ↔ prop) {result : TypeId}
    {value value' : Ty} {rest : CheckM TypeId} (obeys : checker.Obeys signature)
    (denotes : checker.types.Denotes result value)
    (finds : ∀ after, after.Obeys signature → checker.Onward after →
      Finds signature after rest fun later result => later.types.Denotes result value') :
    Finds signature checker (do if ← question then return result else rest)
      fun after result => after.types.Denotes result (if prop then value else value') := by
  refine .bind asks ?_
  intro after holds obeys' onward holdsIff
  cases holds with
  | true =>
    rw [if_pos (holdsIff.mp rfl)]
    exact .pure obeys' (obeys.denotes obeys' onward denotes)
  | false =>
    have fails : ¬prop := by simpa using holdsIff
    rw [if_neg fails]
    exact finds after obeys' onward

theorem finds_union (obeys : checker.Obeys signature) {left right : TypeId} {left' right' : Ty}
    (leftDenotes : checker.types.Denotes left left')
    (rightDenotes : checker.types.Denotes right right') :
    Finds signature checker (union left right) fun after result =>
      after.types.Denotes result (signature.union left' right') := by
  have canonical := obeys.types_canonical
  have coherent := canonical.toCoherent
  rw [union, Signature.union]
  simp only [leftDenotes.inj (.error canonical) coherent,
    rightDenotes.inj (.error canonical) coherent,
    leftDenotes.inj (.undefined canonical) coherent,
    rightDenotes.inj (.undefined canonical) coherent,
    leftDenotes.inj (.void canonical) coherent, rightDenotes.inj (.void canonical) coherent]
  by_cases hasError : left' = .error ∨ right' = .error
  · simpa only [if_pos hasError] using .pure obeys (.error canonical)
  by_cases hasUndefined : left' = .undefined ∨ right' = .undefined
  · simpa only [if_neg hasError, if_pos hasUndefined] using .pure obeys (.undefined canonical)
  by_cases leftVoid : left' = .void
  · simpa only [if_neg hasError, if_neg hasUndefined, if_pos leftVoid] using
      .pure obeys rightDenotes
  by_cases rightVoid : right' = .void
  · simpa only [if_neg hasError, if_neg hasUndefined, if_neg leftVoid, if_pos rightVoid] using
      .pure obeys leftDenotes
  simp only [if_neg hasError, if_neg hasUndefined, if_neg leftVoid, if_neg rightVoid]
  refine finds_ite (finds_isAssignable obeys leftDenotes rightDenotes) obeys leftDenotes ?_
  intro after₁ obeys₁ onward₁
  have leftDenotes₁ := obeys.denotes obeys₁ onward₁ leftDenotes
  have rightDenotes₁ := obeys.denotes obeys₁ onward₁ rightDenotes
  refine finds_ite (finds_isAssignable obeys₁ rightDenotes₁ leftDenotes₁) obeys₁ rightDenotes₁ ?_
  intro after₂ obeys₂ onward₂
  have leftDenotes₂ := obeys₁.denotes obeys₂ onward₂ leftDenotes₁
  have rightDenotes₂ := obeys₁.denotes obeys₂ onward₂ rightDenotes₁
  refine .bind (.asRef obeys₂ rightDenotes₂) ?_
  intro after₃ boxedRight obeys₃ onward₃ boxedDenotes
  have leftDenotes₃ := obeys₂.denotes obeys₃ onward₃ leftDenotes₂
  have rightDenotes₃ := obeys₂.denotes obeys₃ onward₃ rightDenotes₂
  refine finds_ite (finds_isAssignable obeys₃ leftDenotes₃ boxedDenotes) obeys₃ leftDenotes₃ ?_
  intro after₄ obeys₄ onward₄
  have leftDenotes₄ := obeys₃.denotes obeys₄ onward₄ leftDenotes₃
  have rightDenotes₄ := obeys₃.denotes obeys₄ onward₄ rightDenotes₃
  refine .bind (.asRef obeys₄ leftDenotes₄) ?_
  intro after₅ boxedLeft obeys₅ onward₅ boxedDenotes'
  have rightDenotes₅ := obeys₄.denotes obeys₅ onward₅ rightDenotes₄
  refine finds_ite (finds_isAssignable obeys₅ rightDenotes₅ boxedDenotes') obeys₅ rightDenotes₅ ?_
  intro after₆ obeys₆ _
  exact .pure obeys₆ (.undefined obeys₆.types_canonical)

theorem represents_union (coherent : checker.types.Coherent) {left right : TypeId}
    {left' right' : Ty} (leftDenotes : checker.types.Denotes left left')
    (rightDenotes : checker.types.Denotes right right') :
    checker.Represents (union left right) (fun signature => some (signature.union left' right'))
      TypeStore.Denotes := by
  intro signature later obeys extension
  have coherent' := obeys.types_canonical.toCoherent
  exact .of_finds (finds_union obeys (leftDenotes.of_extends coherent coherent' extension)
    (rightDenotes.of_extends coherent coherent' extension))

/-! ## Inheritance -/

theorem Reachable.parentsSpelled (reachable : checker.Reachable) :
    checker.signature.ParentsSpelled := by
  intro id outline isOutline
  obtain ⟨declared, found, rfl⟩ := signature_feature_eq_some_iff.mp isOutline
  refine List.forall_mem_map.mpr fun parent member => ?_
  obtain ⟨held, ancestor, outer, _, node, _⟩ :=
    (reachable.built.orderly.each id declared found).parent_spelled parent member
  have coherent := reachable.sound.toWellFormed.types_canonical.toCoherent
  refine ⟨parent.actuals.map checker.types.tree, outer.map checker.types.tree, ancestor.isRef, ?_⟩
  rw [TypeStore.tree_eq coherent held, node]
  rfl

/-- The union of two types depends on their order just for different types that are contested.
It is the first one of these then, and they are rivals. -/
theorem union_swap
    (start : Checker) (reachable : start.Reachable) (faithful : start.Faithful)
    (acyclic : start.features.Acyclic) (left right : TypeId)
    (held : ∀ ty ∈ [left, right], start.types.Holds ty) {result result' : TypeId}
    (gives : start.GivesBoth (union left right) result (union right left) result') :
    (result ≠ result' ↔ left ≠ right ∧ isAbsorbing left = false ∧ isAbsorbing right = false ∧
      start.signature.Contested (start.types.tree left) (start.types.tree right)) ∧
    (result ≠ result' → result = left ∧ result' = right ∧
      start.signature.Rivals (start.types.tree left) (start.types.tree right)) := by
  simp only [List.forall_mem_cons] at held
  have canonical := faithful.wellFormed.types_canonical
  have coherent := canonical.toCoherent
  have leftDenotes : start.types.Denotes left (start.types.tree left) := ⟨held.1, rfl⟩
  have rightDenotes : start.types.Denotes right (start.types.tree right) := ⟨held.2.1, rfl⟩
  obtain ⟨types, first, second, coherent', extension, prescribed, firstDenotes, prescribed',
    secondDenotes⟩ := gives.exists_values faithful
      (represents_union coherent leftDenotes rightDenotes)
      (represents_union coherent rightDenotes leftDenotes) TypeStore.persists_denotes
      TypeStore.persists_denotes
  obtain rfl := Option.some.inj prescribed
  obtain rfl := Option.some.inj prescribed'
  have leftAbsorbs : isAbsorbing left = (start.types.tree left).isAbsorbing :=
    Bool.eq_iff_iff.mpr (leftDenotes.isAbsorbing_iff canonical)
  have rightAbsorbs : isAbsorbing right = (start.types.tree right).isAbsorbing :=
    Bool.eq_iff_iff.mpr (rightDenotes.isAbsorbing_iff canonical)
  have differIff := start.signature.union_ne_iff (start.types.tree left) (start.types.tree right)
  rw [Ne, ← firstDenotes.inj secondDenotes coherent', Ne, ← leftDenotes.inj rightDenotes coherent,
    ← leftAbsorbs, ← rightAbsorbs] at differIff
  refine ⟨differIff, fun differ => ?_⟩
  obtain ⟨_, leftProper, rightProper, contested⟩ := differIff.mp differ
  rw [leftAbsorbs] at leftProper
  rw [rightAbsorbs] at rightProper
  rw [Signature.union_of_contested leftProper rightProper contested] at firstDenotes
  rw [Signature.union_of_contested rightProper leftProper contested.symm] at secondDenotes
  refine ⟨?_, ?_, ?_⟩
  · exact (firstDenotes.inj (leftDenotes.of_extends coherent coherent' extension) coherent').mpr rfl
  · exact (secondDenotes.inj (rightDenotes.of_extends coherent coherent' extension)
      coherent').mpr rfl
  · exact Signature.rivals_of_contested reachable.parentsSpelled
      (fun id cycle => acyclic id (.mono (fun _ _ => Signature.hasParent_iff.mp) _ _ cycle))
      leftProper rightProper contested

/-- The union of the types in one order, and then in the other one, come out differently. -/
def UnionsDiffer (start : Checker) (left right : TypeId) : Prop :=
  ∃ result result', start.GivesInTurn (union left right) result (union right left) result' ∧
    result ≠ result'

theorem UnionsDiffer.of_decide {left right : TypeId}
    (differ : ∃ result result',
      checker.GivesInTurn (union left right) result (union right left) result' ∧
        decide (result ≠ result') = true) : checker.UnionsDiffer left right := by
  simpa [UnionsDiffer] using differ

/-- Two choices by value, each of which may be wrapped in the other one when it is boxed. -/
def crossedOperations : List Operation :=
  [.declare (.feature "any" none true), .declare (.feature "x" none false),
    .declare (.feature "y" none false), .declare (.feature "left" none false),
    .declare (.parent ⟨4⟩ ⟨1⟩ []), .declare (.feature "right" none false),
    .declare (.parent ⟨5⟩ ⟨1⟩ []), .construct (.instantiate ⟨2⟩ []),
    .construct (.instantiate ⟨3⟩ []), .declare (.choice ⟨4⟩ [⟨3⟩, ⟨4⟩]),
    .declare (.choice ⟨5⟩ [⟨3⟩, ⟨5⟩]), .construct (.instantiate ⟨4⟩ []),
    .construct (.instantiate ⟨5⟩ [])]

/-- The choices are contested, but what both inherit from is not. -/
theorem union_swap_crossed :
    let start := afterAll crossedOperations {}
    start.options.memoize = true ∧ start.features.Acyclic ∧
      start.signature.Contested (start.types.tree ⟨6⟩) (start.types.tree ⟨7⟩) ∧
      start.signature.Rivals (start.types.tree ⟨6⟩) (start.types.tree ⟨7⟩) ∧
      ¬start.signature.Contested (start.types.tree ⟨3⟩) (start.types.tree ⟨7⟩) := by
  intro start
  have reachable : start.Reachable := (Reachable.initial {} {}).steps (by decide +kernel)
  have faithful : start.Faithful := reachable.faithful (by decide +kernel)
  have acyclic : start.features.Acyclic :=
    FeatureTable.acyclic_of_index_lt (FeatureTable.forall_declared (by decide +kernel))
  obtain ⟨result, result', gives, differ⟩ : start.UnionsDiffer ⟨6⟩ ⟨7⟩ :=
    .of_decide (exists_givesInTurn_of_run _ (by decide +kernel))
  obtain ⟨top, top', gives', same⟩ : ∃ top top',
      start.GivesInTurn (union ⟨3⟩ ⟨7⟩) top (union ⟨7⟩ ⟨3⟩) top' ∧ (top == top') = true :=
    exists_givesInTurn_of_run _ (by decide +kernel)
  obtain ⟨crossed, rivals⟩ :=
    union_swap start reachable faithful acyclic ⟨6⟩ ⟨7⟩ (by decide +kernel) (.inl gives)
  obtain ⟨settled, _⟩ := union_swap start reachable faithful acyclic ⟨3⟩ ⟨7⟩ (by decide +kernel)
    (.inl gives')
  refine ⟨by decide +kernel, acyclic, (crossed.mp differ).2.2.2, (rivals differ).2.2,
    fun contested => ?_⟩
  exact settled.mpr ⟨by decide, by decide, by decide, contested⟩ (beq_iff_eq.mp same)

/-- The formal of a companion for the type at hand, and the type it stands for. -/
def standInOperations : List Operation :=
  [.declare (.feature "any" none true), .declare (.feature "Type" none true),
    .declare (.typeRoot ⟨2⟩), .declare (.feature "point" none false), .companion ⟨3⟩,
    .construct (.formal ⟨⟨4⟩, 0⟩), .construct (.asThis ⟨3⟩)]

/-- Two references whose parents cannot be typed. -/
def strayOperations : List Operation :=
  [.declare (.feature "any" none true), .construct (.instantiate ⟨1⟩ []),
    .declare (.feature "base" none true), .declare (.formal ⟨2⟩ "B" ⟨3⟩ false {}),
    .declare (.feature "left" none true), .declare (.formal ⟨3⟩ "L" ⟨3⟩ false {}),
    .declare (.parent ⟨3⟩ ⟨2⟩ [⟨5⟩]), .declare (.feature "right" none true),
    .declare (.formal ⟨4⟩ "R" ⟨3⟩ false {}), .declare (.parent ⟨4⟩ ⟨2⟩ [⟨7⟩]),
    .construct (.instantiate ⟨3⟩ [.error]), .construct (.instantiate ⟨4⟩ [.error])]

/-- Without cycles in the inheritance graph the order matters for choices, for a formal and
the type it stands for, and for types whose parents cannot be typed. -/
theorem union_order_matters :
    ((afterAll crossedOperations {}).features.Acyclic ∧
      (afterAll crossedOperations {}).UnionsDiffer ⟨6⟩ ⟨7⟩) ∧
    ((afterAll standInOperations {}).features.Acyclic ∧
      (afterAll standInOperations {}).UnionsDiffer ⟨5⟩ ⟨6⟩) ∧
    ((afterAll strayOperations {}).features.Acyclic ∧
      (afterAll strayOperations {}).UnionsDiffer ⟨9⟩ ⟨10⟩) := by
  refine ⟨⟨?_, .of_decide (exists_givesInTurn_of_run _ (by decide +kernel))⟩,
    ⟨?_, .of_decide (exists_givesInTurn_of_run _ (by decide +kernel))⟩,
    ?_, .of_decide (exists_givesInTurn_of_run _ (by decide +kernel))⟩
  all_goals
    exact FeatureTable.acyclic_of_index_lt (FeatureTable.forall_declared (by decide +kernel))

end Checker

end FeatureTypes

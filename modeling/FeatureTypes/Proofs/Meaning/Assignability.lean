import FeatureTypes.Proofs.Meaning.History
import FeatureTypes.Proofs.Ty.Display

/-!
# The meaning of assignability

The rules say nothing about the order in which a check looks at ancestors and summands or
about the depth to which it may go.
-/

namespace FeatureTypes

variable {actual target : TypeId} {actual' target' : Ty} {name : String}

/-- Whether a value of type `actual` may be assigned to `target` whatever is declared. -/
def Ty.takesAtOnce (target actual : Ty) : Bool :=
  target = actual || actual = .void || target.isAbsorbing || actual.isAbsorbing

/-- Whether ancestors count: `target` is a reference to a known feature, and `actual` is a
reference. -/
def Ty.ancestorsCount (target actual : Ty) : Bool :=
  !target.isFormal && target.isRef && actual.isRef

namespace Signature

/-- The second type is right above the first one: the constraint of a formal, or a parent
of an applied feature, held through a reference. -/
inductive Above (signature : Signature) : (actual ancestor : Ty) → Prop
  | constraint {id : FormalId} {boxed : Bool} {constraint : Ty}
      (declared : signature.constraint? id = some (some constraint))
      (proper : constraint.asRef ≠ .formal id boxed) :
      Above signature (.formal id boxed) constraint.asRef
  | parent {feature : FeatureId} {args : List Ty} {outer : Option Ty} {isRef isThis : Bool}
      {outline : Outline} {parent : ParentOutline} {ancestor : Ty}
      (declared : signature.feature feature = some outline) (member : parent ∈ outline.parents)
      (seen : signature.ancestorSeenFrom (.applied feature args outer isRef isThis) parent.ty =
        some ancestor) :
      Above signature (.applied feature args outer isRef isThis) ancestor

theorem exists_above_formal_iff (signature : Signature) {id : FormalId} {boxed : Bool}
    {constraint : Option Ty} (declared : signature.constraint? id = some constraint)
    (property : Ty → Prop) :
    (∃ ancestor, signature.Above (.formal id boxed) ancestor ∧ property ancestor) ↔
      ∃ ty, constraint = some ty ∧ ty.asRef ≠ .formal id boxed ∧ property ty.asRef := by
  constructor
  · rintro ⟨_, isAbove, holds⟩
    cases isAbove with
    | constraint declared' proper =>
      exact ⟨_, Option.some.inj (declared.symm.trans declared'), proper, holds⟩
  · rintro ⟨ty, rfl, proper, holds⟩
    exact ⟨_, .constraint declared proper, holds⟩

theorem exists_above_applied_iff (signature : Signature) {feature : FeatureId} {args : List Ty}
    {outer : Option Ty} {isRef isThis : Bool} {outline : Outline}
    (declared : signature.feature feature = some outline) (property : Ty → Prop) :
    (∃ ancestor, signature.Above (.applied feature args outer isRef isThis) ancestor ∧
      property ancestor) ↔ ∃ parent ∈ outline.parents, ∃ ancestor,
        signature.ancestorSeenFrom (.applied feature args outer isRef isThis) parent.ty =
          some ancestor ∧ property ancestor := by
  constructor
  · rintro ⟨ancestor, isAbove, holds⟩
    cases isAbove with
    | parent declared' member seen =>
      obtain rfl := Option.some.inj (declared.symm.trans declared')
      exact ⟨_, member, ancestor, seen, holds⟩
  · rintro ⟨parent, member, ancestor, seen, holds⟩
    exact ⟨ancestor, .parent declared member seen, holds⟩

/-- A value of type `actual` may be assigned to `target`. -/
inductive Takes (signature : Signature) : (target actual : Ty) → Prop
  | atOnce {target actual plainTarget plainActual : Ty}
      (targetPlain : signature.dropThisFormals target = some plainTarget)
      (actualPlain : signature.dropThisFormals actual = some plainActual)
      (takes : plainTarget.takesAtOnce plainActual = true) : Takes signature target actual
  | above {target actual plainTarget plainActual ancestor : Ty}
      (targetPlain : signature.dropThisFormals target = some plainTarget)
      (actualPlain : signature.dropThisFormals actual = some plainActual)
      (counts : plainTarget.ancestorsCount plainActual = true)
      (isAbove : signature.Above plainActual ancestor)
      (takes : Takes signature plainTarget ancestor) : Takes signature target actual
  | summand {target actual plainTarget plainActual summand : Ty} {summands : List Ty}
      (targetPlain : signature.dropThisFormals target = some plainTarget)
      (actualPlain : signature.dropThisFormals actual = some plainActual)
      (byValue : plainTarget.isRef = false)
      (isChoice : signature.summands? plainTarget = some (some summands))
      (member : summand ∈ summands)
      (takes : Takes signature summand plainActual) : Takes signature target actual

/-- The rules read backwards, once the formals for the type at hand are dropped. -/
theorem takes_iff (signature : Signature) {target actual plainTarget plainActual : Ty}
    (targetPlain : signature.dropThisFormals target = some plainTarget)
    (actualPlain : signature.dropThisFormals actual = some plainActual) :
    signature.Takes target actual ↔
      plainTarget.takesAtOnce plainActual = true ∨
      (plainTarget.ancestorsCount plainActual = true ∧
        ∃ ancestor, signature.Above plainActual ancestor ∧ signature.Takes plainTarget ancestor) ∨
      (plainTarget.isRef = false ∧ ∃ summands,
        signature.summands? plainTarget = some (some summands) ∧
          ∃ summand ∈ summands, signature.Takes summand plainActual) := by
  constructor
  · intro takes
    cases takes with
    | atOnce targetPlain' actualPlain' takes =>
      obtain rfl : plainTarget = _ := Option.some.inj (targetPlain.symm.trans targetPlain')
      obtain rfl : plainActual = _ := Option.some.inj (actualPlain.symm.trans actualPlain')
      exact Or.inl takes
    | above targetPlain' actualPlain' counts isAbove takes =>
      obtain rfl : plainTarget = _ := Option.some.inj (targetPlain.symm.trans targetPlain')
      obtain rfl : plainActual = _ := Option.some.inj (actualPlain.symm.trans actualPlain')
      exact Or.inr (Or.inl ⟨counts, _, isAbove, takes⟩)
    | summand targetPlain' actualPlain' byValue isChoice member takes =>
      obtain rfl : plainTarget = _ := Option.some.inj (targetPlain.symm.trans targetPlain')
      obtain rfl : plainActual = _ := Option.some.inj (actualPlain.symm.trans actualPlain')
      exact Or.inr (Or.inr ⟨byValue, _, isChoice, _, member, takes⟩)
  · rintro (takes | ⟨counts, ancestor, isAbove, takes⟩ |
      ⟨byValue, summands, isChoice, summand, member, takes⟩)
    · exact .atOnce targetPlain actualPlain takes
    · exact .above targetPlain actualPlain counts isAbove takes
    · exact .summand targetPlain actualPlain byValue isChoice member takes

/-- A check whether `actual` may be assigned to `target` looks at the type `tried`: at `actual`
itself, and further at what is above it if ancestors count and the types do not settle the
question at once. -/
inductive Tries (signature : Signature) : (target actual tried : Ty) → Prop
  | self (target actual : Ty) : Tries signature target actual actual
  | above {target actual plainTarget plainActual ancestor tried : Ty}
      (targetPlain : signature.dropThisFormals target = some plainTarget)
      (actualPlain : signature.dropThisFormals actual = some plainActual)
      (unsettled : plainTarget.takesAtOnce plainActual = false)
      (counts : plainTarget.ancestorsCount plainActual = true)
      (isApplied : plainActual.appliedFeature? ≠ none)
      (isAbove : signature.Above plainActual ancestor)
      (tries : Tries signature plainTarget ancestor tried) : Tries signature target actual tried

theorem tries_iff (signature : Signature) {target actual plainTarget plainActual tried : Ty}
    (targetPlain : signature.dropThisFormals target = some plainTarget)
    (actualPlain : signature.dropThisFormals actual = some plainActual) :
    signature.Tries target actual tried ↔ tried = actual ∨
      (plainTarget.takesAtOnce plainActual = false ∧
        plainTarget.ancestorsCount plainActual = true ∧ plainActual.appliedFeature? ≠ none ∧
          ∃ ancestor, signature.Above plainActual ancestor ∧
            signature.Tries plainTarget ancestor tried) := by
  constructor
  · intro tries
    cases tries with
    | self => exact Or.inl rfl
    | above targetPlain' actualPlain' unsettled counts isApplied isAbove tries =>
      obtain rfl : plainTarget = _ := Option.some.inj (targetPlain.symm.trans targetPlain')
      obtain rfl : plainActual = _ := Option.some.inj (actualPlain.symm.trans actualPlain')
      exact Or.inr ⟨unsettled, counts, isApplied, _, isAbove, tries⟩
  · rintro (rfl | ⟨unsettled, counts, isApplied, ancestor, isAbove, tries⟩)
    · exact .self _ _
    · exact .above targetPlain actualPlain unsettled counts isApplied isAbove tries

end Signature

/-- The list has the names of these types and no others. -/
structure FeatureTable.Lists (table : FeatureTable) (types : Ty → Prop) (names : List String) :
    Prop where
  name_mem : ∀ ty, types ty → ∃ name ∈ names, ty.display table = .ok name
  exists_of_mem : ∀ name ∈ names, ∃ ty, types ty ∧ ty.display table = .ok name

namespace FeatureTable.Lists

variable {table : FeatureTable} {types types' : Ty → Prop} {names names' : List String}

theorem nil (empty : ∀ ty, ¬types ty) : table.Lists types [] where
  name_mem ty isOne := absurd isOne (empty ty)
  exists_of_mem name member := by cases member

theorem single {ty : Ty} (shown : ty.display table = .ok name) : table.Lists (· = ty) [name] where
  name_mem := by
    rintro _ rfl
    exact ⟨name, List.mem_singleton_self name, shown⟩
  exists_of_mem := by
    intro name' member
    obtain rfl := List.mem_singleton.mp member
    exact ⟨ty, rfl, shown⟩

theorem append (lists : table.Lists types names) (lists' : table.Lists types' names') :
    table.Lists (fun ty => types ty ∨ types' ty) (names ++ names') where
  name_mem := by
    rintro ty (isOne | isOne)
    · obtain ⟨name, member, shown⟩ := lists.name_mem ty isOne
      exact ⟨name, List.mem_append_left _ member, shown⟩
    · obtain ⟨name, member, shown⟩ := lists'.name_mem ty isOne
      exact ⟨name, List.mem_append_right _ member, shown⟩
  exists_of_mem := by
    intro name member
    rcases List.mem_append.mp member with member | member
    · obtain ⟨ty, isOne, shown⟩ := lists.exists_of_mem name member
      exact ⟨ty, Or.inl isOne, shown⟩
    · obtain ⟨ty, isOne, shown⟩ := lists'.exists_of_mem name member
      exact ⟨ty, Or.inr isOne, shown⟩

theorem congr (lists : table.Lists types names) (same : ∀ ty, types ty ↔ types' ty) :
    table.Lists types' names where
  name_mem ty isOne := lists.name_mem ty ((same ty).mpr isOne)
  exists_of_mem name member := by
    obtain ⟨ty, isOne, shown⟩ := lists.exists_of_mem name member
    exact ⟨ty, (same ty).mp isOne, shown⟩

end FeatureTable.Lists

namespace TypeStore.Denotes

variable {types : TypeStore} {id : TypeId} {ty : Ty}

theorem isFormal_eq (denotes : types.Denotes id ty) (coherent : types.Coherent) :
    types.isFormal id = ty.isFormal := by
  rw [← denotes.layer coherent, isFormal, formalId?]
  cases types.node id <;> rfl

theorem isRef_eq (denotes : types.Denotes id ty) (coherent : types.Coherent) :
    types.isRef id = ty.isRef := by
  rw [← denotes.layer coherent, isRef]
  cases types.node id <;> rfl

theorem isAbsorbing_iff (denotes : types.Denotes id ty) (canonical : types.Canonical) :
    Checker.isAbsorbing id = true ↔ ty.isAbsorbing = true := by
  simp only [Checker.isAbsorbing, Ty.isAbsorbing, Bool.or_eq_true, decide_eq_true_eq,
    denotes.inj (error canonical) canonical.toCoherent,
    denotes.inj (undefined canonical) canonical.toCoherent]

theorem takesAtOnce_iff (targetDenotes : types.Denotes target target')
    (actualDenotes : types.Denotes actual actual') (canonical : types.Canonical) :
    (target = actual ∨ actual = .void ∨ Checker.isAbsorbing target = true ∨
      Checker.isAbsorbing actual = true) ↔ target'.takesAtOnce actual' = true := by
  simp only [Ty.takesAtOnce, Bool.or_eq_true, decide_eq_true_eq, or_assoc,
    targetDenotes.inj actualDenotes canonical.toCoherent,
    actualDenotes.inj (.void canonical) canonical.toCoherent,
    targetDenotes.isAbsorbing_iff canonical, actualDenotes.isAbsorbing_iff canonical]

end TypeStore.Denotes

namespace Checker

variable {signature : Signature} {checker : Checker}

theorem means_ancestorSeenFrom (depth : Nat) (obeys : checker.Obeys signature) {ancestor : TypeId}
    {ancestor' : Ty} (actualDenotes : checker.types.Denotes actual actual')
    (ancestorDenotes : checker.types.Denotes ancestor ancestor') :
    Means signature checker (ancestorSeenFrom depth actual ancestor)
      (signature.ancestorSeenFrom actual' ancestor') fun after => after.types.Denotes := by
  refine .bind (means_substituteViaWithin depth obeys actualDenotes ancestorDenotes) ?_
  intro after₁ viewed viewed' obeys₁ onward₁ viewedDenotes
  refine .bind (realizes_replaceThis _ Demands.liberal_lax obeys₁ viewedDenotes
    (obeys.denotes obeys₁ onward₁ actualDenotes)) ?_
  intro after₂ replaced replaced' obeys₂ _ replacedDenotes
  exact .asRef obeys₂ Demands.liberal_lax replacedDenotes

/-! ## One step -/

/-- The verdict is the answer to a question, and if names are `collecting`, it has the names of
the types tried. -/
structure Verdict.Answers (verdict : Verdict) (question : Prop) (table : FeatureTable)
    (collecting : Bool) (tries : Ty → Prop) : Prop where
  holds_iff : verdict.holds = true ↔ question
  names_listed : collecting = true → table.Lists tries verdict.names

theorem Verdict.Answers.of_not {question : Prop} {tries : Ty → Prop} (fails : ¬question)
    (untried : ∀ tried, ¬tries tried) (table : FeatureTable) (collecting : Bool) :
    Answers { holds := false } question table collecting tries where
  holds_iff := by simp [fails]
  names_listed _ := .nil untried

def AssignabilityCheck.KeepsTo (check : AssignabilityCheck) (signature : Signature) : Prop :=
  ∀ {checker : Checker} (collecting : Bool) {target actual : TypeId} {target' actual' : Ty},
    checker.Obeys signature → checker.types.Denotes target target' →
      checker.types.Denotes actual actual' →
        Finds signature checker (check collecting target actual) fun _ verdict =>
          verdict.Answers (signature.Takes target' actual') checker.features collecting
            (signature.Tries target' actual')

theorem finds_display (obeys : checker.Obeys signature) {ty : TypeId} {tree : Ty}
    (denotes : checker.types.Denotes ty tree) :
    Finds signature checker (display ty) fun after text =>
      checker = after ∧ tree.display checker.features = .ok text := by
  refine .look (EStateM.run_get checker) (.readFeatures obeys fun text shown => ⟨rfl, ?_⟩)
  rwa [TypeStore.display_eq_display obeys.types_canonical.toCoherent denotes.1, denotes.2] at shown

theorem finds_collectedName (obeys : checker.Obeys signature) (collecting : Bool) {ty : TypeId}
    {tree : Ty} (denotes : checker.types.Denotes ty tree) :
    Finds signature checker (collectedName collecting ty) fun after names =>
      checker = after ∧ (collecting = true → checker.features.Lists (· = tree) names) := by
  cases collecting with
  | false => exact .pure obeys ⟨rfl, by simp⟩
  | true =>
    refine .bind (finds_display obeys denotes) ?_
    rintro _ text _ _ ⟨rfl, shown⟩
    exact .pure obeys ⟨rfl, fun _ => .single shown⟩

section

variable {check : AssignabilityCheck} (keeps : check.KeepsTo signature)

include keeps

section

variable (depth : Nat) (collecting : Bool) (obeys : checker.Obeys signature)
  (targetDenotes : checker.types.Denotes target target')
  (actualDenotes : checker.types.Denotes actual actual')

include depth collecting obeys targetDenotes actualDenotes

theorem finds_anyParentAssignable {parents : List Parent}
    (held : ∀ parent ∈ parents, checker.types.Holds parent.ty) :
    Finds signature checker (anyParentAssignable check depth collecting target actual parents)
      fun _ verdict => verdict.Answers
        (∃ parent ∈ parents, ∃ ancestor,
          signature.ancestorSeenFrom actual' (checker.types.tree parent.ty) = some ancestor ∧
            signature.Takes target' ancestor)
        checker.features collecting fun tried => ∃ parent ∈ parents, ∃ ancestor,
          signature.ancestorSeenFrom actual' (checker.types.tree parent.ty) = some ancestor ∧
            signature.Tries target' ancestor tried := by
  induction parents generalizing checker with
  | nil => exact .pure obeys (.of_not (by simp) (by simp) _ _)
  | cons parent rest ih =>
    rw [List.forall_mem_cons] at held
    refine .bind (means_ancestorSeenFrom depth obeys actualDenotes ⟨held.1, rfl⟩).finds ?_
    rintro after₁ ancestor obeys₁ onward₁ ⟨ancestor', seen, ancestorDenotes⟩
    have targetDenotes₁ := obeys.denotes obeys₁ onward₁ targetDenotes
    refine .bind (keeps collecting obeys₁ targetDenotes₁ ancestorDenotes) ?_
    intro after₂ first obeys₂ onward₂ firstAnswers
    rw [onward₁.features_eq] at firstAnswers
    have onward := onward₁.trans onward₂
    have restHeld : ∀ parent ∈ rest, after₂.types.Holds parent.ty :=
      fun parent member => onward.types_extend.holds (held.2 parent member)
    -- The first parent decides alone, or the others decide with it.
    have consIff : ∀ property : Ty → Prop, (∃ other ∈ parent :: rest, ∃ ancestor,
        signature.ancestorSeenFrom actual' (checker.types.tree other.ty) = some ancestor ∧
          property ancestor) ↔ property ancestor' ∨ ∃ other ∈ rest, ∃ ancestor,
            signature.ancestorSeenFrom actual' (after₂.types.tree other.ty) = some ancestor ∧
              property ancestor := by
      intro property
      rw [List.exists_mem_cons_iff]
      refine or_congr (by simp [seen]) (exists_congr fun other => and_congr_right fun member => ?_)
      rw [TypeStore.tree_eq_of_extends obeys.types_canonical.toCoherent
        obeys₂.types_canonical.toCoherent onward.types_extend (held.2 other member)]
    split
    next stops =>
      rw [Bool.and_eq_true, Bool.not_eq_true'] at stops
      refine .pure obeys₂ ⟨?_, fun collects => by simp [collects] at stops⟩
      rw [consIff, ← firstAnswers.holds_iff]
      simp [stops.1]
    next =>
      refine .bind (ih obeys₂ (obeys.denotes obeys₂ onward targetDenotes)
        (obeys.denotes obeys₂ onward actualDenotes) restHeld) ?_
      intro after₃ others obeys₃ _ othersAnswer
      rw [onward.features_eq] at othersAnswer
      refine .pure obeys₃ ⟨?_, fun collects => ?_⟩
      · rw [consIff, Bool.or_eq_true, firstAnswers.holds_iff, othersAnswer.holds_iff]
      · exact ((firstAnswers.names_listed collects).append
          (othersAnswer.names_listed collects)).congr
            fun tried => (consIff (signature.Tries target' · tried)).symm

theorem finds_ancestorAssignable :
    Finds signature checker (ancestorAssignable check depth collecting target actual)
      fun _ verdict => verdict.Answers
        (target'.ancestorsCount actual' = true ∧
          ∃ ancestor, signature.Above actual' ancestor ∧ signature.Takes target' ancestor)
        checker.features collecting fun tried =>
          target'.ancestorsCount actual' = true ∧ actual'.appliedFeature? ≠ none ∧
            ∃ ancestor, signature.Above actual' ancestor ∧
              signature.Tries target' ancestor tried := by
  have coherent := obeys.types_canonical.toCoherent
  refine .look (run_readTypes checker _) ?_
  rw [ancestorsCount, targetDenotes.isFormal_eq coherent, targetDenotes.isRef_eq coherent,
    actualDenotes.isRef_eq coherent, ← Ty.ancestorsCount]
  cases counts : target'.ancestorsCount actual' with
  | false => exact .pure obeys (.of_not (by simp) (by simp) _ _)
  | true =>
    refine .node actualDenotes coherent ?_
    intro layer reads
    cases reads with
    | formal id boxed =>
      refine .bind (realizes_constraint? (.free _) obeys id).finds ?_
      rintro after₁ constraint obeys₁ onward₁ ⟨constraint', declared, constraintDenotes⟩
      -- Above a formal the walk goes on, but no names are collected there.
      cases constraintDenotes with
      | none =>
        exact .pure obeys₁ (.of_not (by simp [signature.exists_above_formal_iff declared])
          (by simp [Ty.appliedFeature?]) _ _)
      | some constraintDenotes =>
        refine .bind (.asRef obeys₁ constraintDenotes) ?_
        intro after₂ boxedId obeys₂ onward₂ boxedDenotes
        have onward := onward₁.trans onward₂
        have sameIff := boxedDenotes.inj (obeys.denotes obeys₂ onward actualDenotes)
          obeys₂.types_canonical.toCoherent
        rw [if_congr sameIff rfl rfl]
        split
        next same =>
          exact .pure obeys₂ (.of_not
            (by simp [signature.exists_above_formal_iff declared, same])
            (by simp [Ty.appliedFeature?]) _ _)
        next different =>
          refine .bind (keeps false obeys₂ (obeys.denotes obeys₂ onward targetDenotes)
            boxedDenotes) ?_
          intro after₃ verdict obeys₃ _ answers
          refine .pure obeys₃ ⟨?_, fun _ => .nil (by simp [Ty.appliedFeature?])⟩
          simp [answers.holds_iff, signature.exists_above_formal_iff declared, different]
    | applied feature =>
      refine .bind (Finds.feature obeys feature) ?_
      rintro _ declared _ _ ⟨rfl, found, outlineEq⟩
      have wellFormed := obeys.features_wellFormed feature declared found
      refine (finds_anyParentAssignable keeps depth collecting obeys targetDenotes actualDenotes
        wellFormed.ty_held).weaken ?_
      rintro after verdict _ _ ⟨holdsIff, listed⟩
      refine ⟨?_, fun collects => (listed collects).congr fun tried => ?_⟩
      · simp [holdsIff, signature.exists_above_applied_iff outlineEq, Feature.outline]
      · simp [signature.exists_above_applied_iff outlineEq, Ty.appliedFeature?, Feature.outline]
    | _ =>
      refine .pure obeys (.of_not ?_ (by simp [Ty.appliedFeature?]) _ _)
      rintro ⟨_, _, isAbove, _⟩
      cases isAbove

end

theorem finds_anySummandAssignable (obeys : checker.Obeys signature)
    (actualDenotes : checker.types.Denotes actual actual') {summands : List TypeId}
    {summands' : List Ty} (denote : List.Forall₂ checker.types.Denotes summands summands') :
    Finds signature checker (anySummandAssignable check actual summands) fun _ holds =>
      (holds = true ↔ ∃ summand ∈ summands', signature.Takes summand actual') := by
  induction summands generalizing checker summands' with
  | nil =>
    cases denote
    exact .pure obeys (by simp)
  | cons summand rest ih =>
    cases denote with
    | cons denotes restDenote =>
      refine .bind (keeps false obeys denotes actualDenotes) ?_
      intro after₁ verdict obeys₁ onward₁ answers
      rw [List.exists_mem_cons_iff, ← answers.holds_iff]
      split
      next holds => exact .pure obeys₁ (by simp [holds])
      next fails =>
        refine (ih obeys₁ (obeys.denotes obeys₁ onward₁ actualDenotes)
          (obeys.denotesAll obeys₁ onward₁ restDenote)).weaken ?_
        intro after holds _ _ holdsIff
        rw [holdsIff, or_iff_right fails]

theorem finds_choiceAssignable (depth : Nat) (obeys : checker.Obeys signature)
    (targetDenotes : checker.types.Denotes target target')
    (actualDenotes : checker.types.Denotes actual actual') :
    Finds signature checker (choiceAssignable check depth target actual) fun _ holds =>
      (holds = true ↔ target'.isRef = false ∧ ∃ summands,
        signature.summands? target' = some (some summands) ∧
          ∃ summand ∈ summands, signature.Takes summand actual') := by
  refine .look (run_readTypes checker _) ?_
  rw [targetDenotes.isRef_eq obeys.types_canonical.toCoherent]
  cases target'.isRef with
  | true => exact .pure obeys (by simp)
  | false =>
    refine .bind (means_summandsWithin? depth obeys targetDenotes).finds ?_
    rintro after₁ summands obeys₁ onward₁ ⟨summands', isChoice, denote⟩
    cases denote with
    | none => exact .pure obeys₁ (by simp [isChoice])
    | some denote =>
      refine (finds_anySummandAssignable keeps obeys₁
        (obeys.denotes obeys₁ onward₁ actualDenotes) denote).weaken ?_
      intro after holds _ _ holdsIff
      simp [holdsIff, isChoice]

end

theorem assignableStep_keepsTo {check : AssignabilityCheck} (keeps : check.KeepsTo signature)
    (depth : Nat) : (assignableStep check depth).KeepsTo signature := by
  intro checker collecting target actual target' actual' obeys targetDenotes actualDenotes
  refine .bind (finds_collectedName obeys collecting actualDenotes) ?_
  rintro _ names _ _ ⟨rfl, named⟩
  refine .bind (realizes_dropThisFormals (.free _) Demands.liberal_lax obeys targetDenotes).finds ?_
  rintro after₁ plainTarget obeys₁ onward₁ ⟨plainTarget', targetPlain, plainTargetDenotes⟩
  refine .bind (realizes_dropThisFormals (.free _) Demands.liberal_lax obeys₁
    (obeys.denotes obeys₁ onward₁ actualDenotes)).finds ?_
  rintro after₂ plainActual obeys₂ onward₂ ⟨plainActual', actualPlain, plainActualDenotes⟩
  have plainTargetDenotes := obeys₁.denotes obeys₂ onward₂ plainTargetDenotes
  have atOnceIff := plainTargetDenotes.takesAtOnce_iff plainActualDenotes obeys₂.types_canonical
  have takesIff := signature.takes_iff targetPlain actualPlain
  have triesIff : ∀ tried, signature.Tries target' actual' tried ↔ _ := fun _ =>
    signature.tries_iff targetPlain actualPlain
  split
  next takes =>
    have takes := atOnceIff.mp takes
    exact .pure obeys₂ ⟨by simp [takesIff, takes],
      fun collects => (named collects).congr fun tried => by simp [triesIff, takes]⟩
  next leaves =>
    rw [atOnceIff] at leaves
    refine .bind (finds_ancestorAssignable keeps depth collecting obeys₂ plainTargetDenotes
      plainActualDenotes) ?_
    intro after₃ above obeys₃ onward₃ aboveAnswers
    rw [(onward₁.trans onward₂).features_eq] at aboveAnswers
    have listed : collecting = true →
        checker.features.Lists (signature.Tries target' actual') (names ++ above.names) :=
      fun collects => ((named collects).append (aboveAnswers.names_listed collects)).congr
        fun tried => by simp [triesIff, leaves]
    split
    next holds =>
      exact .pure obeys₃ ⟨by simp [takesIff, aboveAnswers.holds_iff.mp holds], listed⟩
    next fails =>
      refine .bind (finds_choiceAssignable keeps depth obeys₃
        (obeys₂.denotes obeys₃ onward₃ plainTargetDenotes)
        (obeys₂.denotes obeys₃ onward₃ plainActualDenotes)) ?_
      intro after₄ holds obeys₄ _ holdsIff
      refine .pure obeys₄ ⟨?_, listed⟩
      rw [takesIff, or_iff_right leaves, ← aboveAnswers.holds_iff, or_iff_right fails, holdsIff]

/-- At whatever depth, an answer is the one that the rules give. -/
theorem assignableWithin_keepsTo (depth : Nat) : (assignableWithin depth).KeepsTo signature := by
  induction depth with
  | zero =>
    intro checker collecting target actual target' actual' _ _ _
    exact .fail .depthExceeded _
  | succ depth ih => exact assignableStep_keepsTo ih depth

/-- A check that comes to an end decides assignability. -/
theorem finds_isAssignable (obeys : checker.Obeys signature)
    (targetDenotes : checker.types.Denotes target target')
    (actualDenotes : checker.types.Denotes actual actual') :
    Finds signature checker (isAssignable target actual) fun _ holds =>
      (holds = true ↔ signature.Takes target' actual') := by
  refine .look (EStateM.run_get checker) ?_
  refine .bind (assignableWithin_keepsTo _ false obeys targetDenotes actualDenotes) ?_
  intro after verdict obeys' _ answers
  exact .pure obeys' answers.holds_iff

/-! ## Answers -/

/-- Asked for the type `target` with the formals of `owner` replaced, at some time while the
features stay as they are, the checker gives `result`. -/
def Substitutes (start : Checker) (owner : FeatureId) (actuals : List Ty) (target result : Ty) :
    Prop :=
  ∃ checker actualIds targetId resultId after, start.Continues checker ∧
    List.Forall₂ checker.types.Denotes actualIds actuals ∧
      checker.types.Denotes targetId target ∧
        (substitute owner actualIds targetId).run checker = .ok resultId after ∧
          after.types.Denotes resultId result

/-- Asked whether a value of type `actual` may be assigned to `target`, at some time while the
features stay as they are, the checker answers `answer`. -/
def Decides (start : Checker) (target actual : Ty) (answer : Bool) : Prop :=
  ∃ checker targetId actualId after, start.Continues checker ∧
    checker.types.Denotes targetId target ∧ checker.types.Denotes actualId actual ∧
      (isAssignable targetId actualId).run checker = .ok answer after

section

variable {start : Checker} (faithful : start.Faithful)

include faithful

theorem Substitutes.prescribed {owner : FeatureId} {actuals : List Ty} {target result : Ty}
    (substitutes : start.Substitutes owner actuals target result) :
    start.signature.substitute owner actuals target = some result := by
  obtain ⟨checker, actualIds, targetId, resultId, after, continues, denote, denotes, run,
    resultDenotes⟩ := substitutes
  obtain ⟨_, _, value, prescribed, valueDenotes⟩ :=
    (substitute_keepsTo owner (continues.obeys faithful) denote denotes).finds resultId after run
  rw [prescribed, resultDenotes.unique valueDenotes]

/-- It does not matter when the question was asked. -/
theorem Decides.iff_takes {target actual : Ty} {answer : Bool}
    (decides : start.Decides target actual answer) :
    answer = true ↔ start.signature.Takes target actual := by
  obtain ⟨checker, targetId, actualId, after, continues, targetDenotes, actualDenotes, run⟩ :=
    decides
  exact (finds_isAssignable (continues.obeys faithful) targetDenotes actualDenotes answer after
    run).2.2

end

theorem decides_of_run {start : Checker} {answer : Bool}
    (held : ∀ ty ∈ [target, actual], start.types.Holds ty)
    (answers : (match (isAssignable target actual).run start with
      | .ok found _ => decide (found = answer)
      | .error _ _ => false) = true) :
    start.Decides (start.types.tree target) (start.types.tree actual) answer := by
  simp only [List.forall_mem_cons] at held
  split at answers
  next found after run =>
    obtain rfl := decide_eq_true_eq.mp answers
    exact ⟨start, target, actual, after, .refl, ⟨held.1, rfl⟩, ⟨held.2.1, rfl⟩, run⟩
  next => cases answers

theorem substitutes_of_run {start : Checker} {owner : FeatureId} {actuals : List TypeId}
    {target : TypeId} {result : Ty} (held : ∀ ty ∈ target :: actuals, start.types.Holds ty)
    (answers : (match (substitute owner actuals target).run start with
      | .ok found after => decide (after.types.Holds found ∧ after.types.tree found = result)
      | .error _ _ => false) = true) :
    start.Substitutes owner (actuals.map start.types.tree) (start.types.tree target) result := by
  rw [List.forall_mem_cons] at held
  split at answers
  next found after run =>
    have isResult := of_decide_eq_true answers
    exact ⟨start, actuals, target, found, after, .refl,
      TypeStore.Denotes.forall₂_iff.mpr ⟨held.2, rfl⟩, ⟨held.1, rfl⟩, run, isResult⟩
  next => cases answers

end Checker

end FeatureTypes

import FeatureTypes.Proofs.Coupling.Types

/-!
# Coupled creation of companions

Creating a companion declares a feature, gives it formals and a parent, and links the origin
to it.
-/

namespace FeatureTypes.Coupling

open Checker

variable {K : Coupling} {free : FeatureId → Prop} {plain : K.World → FeatureId → Prop}

/-- The laws for the steps in which a companion is created.  The free features are those
that may be given formals and parents, and the plain features are known not to be
companions. -/
structure Declaring (K : Coupling) (free : FeatureId → Prop)
    (plain : K.World → FeatureId → Prop) : Prop extends Core K where
  plain_later : ∀ {world world' id}, plain world id → K.later world world' → plain world' id
  look : ∀ {world} (id : FeatureId),
    K.couples world (Checker.feature id) (Checker.feature id) fun world' declared declared' =>
      (declared'.companion = declared.companion ∧ declared'.outer = declared.outer ∧
        declared'.isCompanion = declared.isCompanion) ∧
          (declared.isCompanion = false → plain world' id)
  typeRoot : ∀ {world}, K.couples world typeRoot? typeRoot? K.Agrees
  declareCompanion : ∀ {world origin} (name : String) (outer : FeatureId), plain world origin →
    K.couples world (onFeatures (·.declare name outer false (some origin)))
      (onFeatures (·.declare name outer false (some origin))) fun _ id id' => id' = id ∧ free id
  addFormal : ∀ {world feature constraint constraint'} (name : String) (isOpen : Bool)
    (span : Span), free feature → K.same world constraint constraint' →
    K.couples world (Checker.addFormal feature name constraint isOpen span)
      (Checker.addFormal feature name constraint' isOpen span) K.Agrees
  declareParent : ∀ {world heir actuals actuals'} (ancestor : FeatureId), free heir →
    List.Forall₂ (K.same world) actuals actuals' →
    K.couples world (Checker.declareParent heir ancestor actuals)
      (Checker.declareParent heir ancestor actuals') K.Agrees
  linkCompanion : ∀ {world} (origin companion : FeatureId),
    K.couples world
      (modifyFeature origin fun feature => { feature with companion := some companion })
      (modifyFeature origin fun feature => { feature with companion := some companion }) K.Agrees

namespace Declaring

variable (declaring : K.Declaring free plain) {world : K.World}

include declaring

theorem copyFormals (origin : FeatureId) {companion : FeatureId} (isFree : free companion)
    {formals formals' : List Formal}
    (formalsRelated : List.Forall₂ (Formal.Related (K.same world)) formals formals') :
    K.couples world (copyFormals origin companion formals)
      (copyFormals origin companion formals') K.Agrees := by
  have core := declaring.toCore
  refine core.bind (core.selfType origin) ?_
  intro world₁ self self' step₁ selfSame
  refine core.bind_agrees (declaring.addFormal thisFormalName false {} isFree selfSame) ?_
  intro world₂ _ step₂
  refine core.forM core.formal_persistent (core.formal_persistent.list _ _ _ _ formalsRelated
    (core.later_trans step₁ step₂)) ?_
  intro world₃ formal formal' _ formalRelated
  refine core.bind (core.shiftFormals origin companion 1 formalRelated.constraint_same) ?_
  intro world₄ constraint constraint' _ constraintSame
  rw [formalRelated.name_eq, formalRelated.isOpen_eq, formalRelated.span_eq]
  refine core.bind_agrees
    (declaring.addFormal formal.name formal.isOpen formal.span isFree constraintSame) ?_
  intro world₅ _ _
  exact core.pure rfl

theorem inheritTypeRoot {companion : FeatureId} (isFree : free companion) :
    K.couples world (inheritTypeRoot companion) (inheritTypeRoot companion) K.Agrees := by
  have core := declaring.toCore
  refine core.bind_agrees declaring.typeRoot ?_
  intro world₁ root _
  cases root with
  | none => exact core.pure rfl
  | some root => exact declaring.declareParent root isFree .nil

theorem createCompanion {origin : FeatureId} (isPlain : plain world origin) (outer : FeatureId) :
    K.couples world (createCompanion origin outer) (createCompanion origin outer) K.Agrees := by
  have core := declaring.toCore
  refine core.bind (core.feature origin) ?_
  intro world₁ declared declared' step₁ related
  rw [related.name_eq, related.qualifiedName_eq]
  refine core.bind (declaring.declareCompanion _ outer (declaring.plain_later isPlain step₁)) ?_
  rintro world₂ _ companion step₂ ⟨rfl, isFree⟩
  refine core.bind_agrees (declaring.copyFormals origin isFree
    (core.formal_persistent.list _ _ _ _ related.formals_related step₂)) ?_
  intro world₃ _ _
  refine core.bind_agrees (declaring.inheritTypeRoot isFree) ?_
  intro world₄ _ _
  refine core.bind_agrees (declaring.linkCompanion origin companion) ?_
  intro world₅ _ _
  refine core.bind_agrees (core.record _ _) ?_
  intro world₆ _ _
  exact core.pure rfl

/-- Both sides create companions for the same features, from the outside in. -/
theorem companionWithin (depth : Nat) (id : FeatureId) :
    K.couples world (companionWithin depth id) (companionWithin depth id) K.Agrees := by
  have core := declaring.toCore
  induction depth generalizing world id with
  | zero => exact core.fail .depthExceeded
  | succ depth ih =>
    refine core.bind (declaring.look id) ?_
    rintro world₁ declared declared' _ ⟨⟨companionEq, outerEq, isCompanionEq⟩, isPlain⟩
    rw [companionEq, outerEq, isCompanionEq]
    split
    · exact core.pure rfl
    · exact core.pure rfl
    · rename_i outer _ _
      cases isCompanion : declared.isCompanion with
      | true => exact core.pure rfl
      | false =>
        have around : K.couples world₁ (companionOuterBy (Checker.companionWithin depth) outer)
            (companionOuterBy (Checker.companionWithin depth) outer) K.Agrees := by
          refine core.bind (core.feature outer) ?_
          intro world₂ declared declared' _ related
          rw [show declared'.isUniverse = declared.isUniverse from
            congrArg Option.isNone related.outer_eq]
          split
          · exact core.pure rfl
          · refine core.bind_agrees (ih outer) ?_
            intro world₃ companion _
            exact core.pure rfl
        refine core.bind_agrees around ?_
        intro world₂ around step₂
        refine core.bind_agrees (declaring.createCompanion
          (declaring.plain_later (isPlain isCompanion) step₂) around) ?_
        intro world₃ companion _
        exact core.pure rfl

end Declaring

end FeatureTypes.Coupling

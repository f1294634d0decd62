import FeatureTypes.Checker.Choice
import FeatureTypes.Proofs.Coupling.Lists
import FeatureTypes.Proofs.Meaning.Types
import FeatureTypes.Proofs.Memo.Basic

/-!
# The meaning of substitutions

A substitution, within whatever depth, from memory or worked out anew, realizes what the
signature prescribes under the demands that it is held to.
-/

namespace FeatureTypes

variable {actuals : List TypeId} {actuals' : List Ty} {ty target source : TypeId}
  {target' source' : Ty}

namespace Checker

open Realizes (lasting_denotes)

variable {signature : Signature} (terms : Terms signature) {checker : Checker}

/-! ## Formals -/

section

variable (holds : terms.invariant checker)

include holds

theorem realizes_formalOf? {id : FormalId} {boxed : Bool}
    (denotes : checker.types.Denotes ty (.formal id boxed)) :
    Realizes terms checker (formalOf? ty) (signature.formal? id) fun after formal outline =>
      checker = after ∧ checker.features.formal? id = .ok formal ∧
        outline = formal.map fun formal =>
          ⟨formal.id, formal.isOpen, after.types.tree formal.constraint⟩ := by
  refine .look (run_readTypes checker _) ?_
  rw [TypeStore.formalId?, denotes.node_formal (terms.coherent holds)]
  exact realizes_formal? terms holds id

/-- A declared formal has a name to be shown by. -/
theorem run_display_formal {id : FormalId} {boxed : Bool}
    (denotes : checker.types.Denotes ty (.formal id boxed)) {formal : Formal}
    (present : checker.features.formal? id = .ok (some formal)) :
    ∃ text, (display ty).run checker = .ok text checker := by
  obtain ⟨declared, found, _⟩ := except_bind_eq_ok present
  have name : checker.features.formalName id = .ok formal.name := by
    rw [FeatureTable.formalName, present]
    rfl
  rw [run_display]
  simp only [TypeStore.display, TypeStore.phraseWithin,
    denotes.node_formal (terms.coherent holds), FeatureTable.formalPhrase, found, name]
  exact ⟨_, rfl⟩

theorem realizes_ensureNotOpen {id : FormalId} {boxed : Bool}
    (denotes : checker.types.Denotes ty (.formal id boxed)) :
    Realizes terms checker (ensureNotOpen ty) (signature.closedUnder terms.toDemands id)
      fun _ => Eq := by
  refine .bind (realizes_formalOf? terms holds denotes) ?_
  rintro _ formal _ _ _ ⟨rfl, present, rfl⟩
  cases formal with
  | none => exact .pure holds rfl
  | some formal =>
    cases isOpen : formal.isOpen with
    | false =>
      simp only [Option.map_some, Option.any_some, isOpen, Bool.false_eq_true, if_false]
      exact .pure holds rfl
    | true =>
      obtain ⟨text, displayed⟩ := run_display_formal terms holds denotes present
      simp only [Option.map_some, Option.any_some, isOpen, if_true]
      refine .look displayed ?_
      rw [Demands.make]
      split
      next loud =>
        refine .follow (.report holds loud _ _) ?_
        intro after _ holds' _ _
        exact .pure holds' rfl
      next admitted =>
        exact .lenient (terms.unlimited.resolve_right fun unlimited => admitted (unlimited.2 _))

theorem realizes_actualFor (denote : List.Forall₂ checker.types.Denotes actuals actuals')
    (id : FormalId) :
    Realizes terms checker (actualFor actuals id)
      (Signature.actualUnder terms.toDemands actuals' id) fun after => after.types.Denotes := by
  have present := option_rel_getElem? denote id.index
  rw [actualFor, Signature.actualUnder]
  generalize actuals[id.index]? = actual at present
  generalize actuals'[id.index]? = actual' at present
  cases present with
  | some denotes =>
    rw [Option.getD_some, ite_self]
    exact .pure holds denotes
  | none =>
    by_cases strict : terms.strict
    · rw [if_pos strict]
      exact .lenient (terms.unlimited.resolve_right fun unlimited => unlimited.1 strict)
    · rw [if_neg strict]
      refine .follow (.expect holds strict _ _) ?_
      intro after _ holds' _ _
      exact .pure holds' (terms.denotes_error holds')

theorem realizes_substituteFormal (owner : FeatureId)
    (denote : List.Forall₂ checker.types.Denotes actuals actuals') {id : FormalId} {boxed : Bool}
    (denotes : checker.types.Denotes ty (.formal id boxed)) :
    Realizes terms checker (substituteFormal owner actuals ty id boxed)
      (signature.formalUnder terms.toDemands owner actuals' id boxed) fun after =>
        after.types.Denotes := by
  refine .branch Iff.rfl (fun _ => .pure holds denotes) fun _ => ?_
  refine .bind (realizes_ensureNotOpen terms holds denotes) ?_
  rintro after₁ closed _ holds₁ onward₁ rfl
  refine .branch Iff.rfl (fun _ => .pure holds₁ (terms.denotes_error holds₁)) fun _ => ?_
  refine .bind (realizes_actualFor terms holds₁ (terms.denotesAll holds holds₁ onward₁ denote)
    id) ?_
  intro after₂ actual actual' holds₂ onward₂ actualDenotes
  cases boxed with
  | false => exact .pure holds₂ actualDenotes
  | true =>
    change Realizes terms after₂ (onTypes (·.asRef actual)) _ _
    exact .replaces holds₂ (terms.denotes holds holds₂ (onward₁.trans onward₂) denotes)
      (TypeStore.makes_asRef (terms.canonical holds₂) actualDenotes)

end

/-! ## Substituters -/

/-- The substituter realizes the calls. -/
def Serves (substitute : Substituter)
    (call : (owner : FeatureId) → (actuals : List Ty) → (target : Ty) → Option Ty) : Prop :=
  ∀ {checker : Checker} (owner : FeatureId) {actuals : List TypeId} {actuals' : List Ty}
    {target : TypeId} {target' : Ty}, terms.invariant checker →
      List.Forall₂ checker.types.Denotes actuals actuals' → checker.types.Denotes target target' →
        Realizes terms checker (substitute owner actuals target) (call owner actuals' target')
          fun after => after.types.Denotes

def Substituter.KeepsTo (substitute : Substituter) (signature : Signature) : Prop :=
  Serves (.free signature) substitute signature.substitute

section

variable {inner : Substituter}
  {call : (owner : FeatureId) → (actuals : List Ty) → (target : Ty) → Option Ty}
  (serves : Serves terms inner call)

/-! ## Lists -/

theorem realizes_trailingOpen? (holds : terms.invariant checker) (owner : FeatureId) {ty' : Ty}
    (denotes : checker.types.Denotes ty ty') {rest : List TypeId} {rest' : List Ty}
    (restDenote : List.Forall₂ checker.types.Denotes rest rest') :
    Realizes terms checker (trailingOpen? owner ty rest)
      (signature.trailingOpen? owner ty' rest') fun _ => Eq := by
  have reads := denotes.reads (terms.coherent holds)
  cases restDenote with
  | cons _ _ =>
    cases ty' <;> exact .pure holds rfl
  | nil =>
    refine .look (run_readTypes checker _) ?_
    rw [TypeStore.formalId?]
    generalize checker.types.node ty = layer at reads
    cases reads with
    | formal id boxed =>
      refine .branch Iff.rfl (fun _ => .pure holds rfl) fun _ => ?_
      rw [isOpenFormal, bind_assoc]
      refine .bind (realizes_formalOf? terms holds denotes) ?_
      rintro _ formal _ holds₁ _ ⟨rfl, _, rfl⟩
      refine .look rfl ?_
      refine .branch ?_ (fun _ => .pure holds rfl) fun _ => .pure holds rfl
      cases formal <;> rfl
    | _ => exact .pure holds rfl

include serves

section

variable {list : List TypeId} {list' : List Ty} (owner : FeatureId)
  (holds : terms.invariant checker) (denote : List.Forall₂ checker.types.Denotes actuals actuals')
  (listDenotes : List.Forall₂ checker.types.Denotes list list')

include owner holds denote listDenotes

theorem realizes_substituteEach :
    Realizes terms checker (substituteEach inner owner actuals list)
      (signature.substituteEach call owner actuals' list') fun after =>
        List.Forall₂ after.types.Denotes := by
  induction list generalizing checker list' with
  | nil =>
    cases listDenotes
    rw [Signature.substituteEach]
    exact .pure holds .nil
  | cons ty rest ih =>
    cases listDenotes with
    | cons denotes restDenote =>
      rw [Signature.substituteEach]
      refine .bind (realizes_trailingOpen? terms holds owner denotes restDenote) ?_
      rintro after₁ position _ holds₁ onward₁ rfl
      have denote := terms.denotesAll holds holds₁ onward₁ denote
      cases position with
      | some position => exact .pure holds₁ (List.forall₂_drop position denote)
      | none =>
        refine .bind (serves owner holds₁ denote (terms.denotes holds holds₁ onward₁ denotes)) ?_
        intro after₂ first first' holds₂ onward₂ firstDenotes
        have restDenote := terms.denotesAll holds holds₂ (onward₁.trans onward₂) restDenote
        refine .bind (ih holds₂ (terms.denotesAll holds₁ holds₂ onward₂ denote) restDenote) ?_
        intro after₃ others others' holds₃ onward₃ othersDenote
        exact .pure holds₃ (.cons (terms.denotes holds₂ holds₃ onward₃ firstDenotes) othersDenote)

theorem realizes_substituteListBy :
    Realizes terms checker (substituteListBy inner owner actuals list)
      (signature.substituteList call owner actuals' list') fun after =>
        List.Forall₂ after.types.Denotes := by
  rw [Signature.substituteList]
  refine .feature holds owner ?_
  intro declared _
  refine .look (run_readTypes checker _) ?_
  have areFormals := TypeStore.Denotes.map_node_eq_iff listDenotes (terms.coherent holds)
    (declared.formals.map Formal.id)
  simp only [List.map_map, Function.comp_def] at areFormals
  refine .branch ?_ (fun _ => .pure holds denote) fun _ =>
    realizes_substituteEach terms serves owner holds denote listDenotes
  simpa only [decide_eq_true_eq, Feature.outline, List.map_map, Function.comp_def]
    using areFormals

end

/-! ## Metatypes -/

theorem realizes_seenFromWithin (liberal : terms.Liberal) {depth : Nat} {self id : TypeId}
    {self' ty : Ty} (holds : terms.invariant checker)
    (selfDenotes : checker.types.Denotes self self') (denotes : checker.types.Denotes id ty)
    (deep : self.index < depth) :
    Realizes terms checker (seenFromWithin inner depth self id)
      (signature.seenFrom call self' ty) fun after => after.types.Denotes := by
  induction depth generalizing checker self id self' ty with
  | zero => exact absurd deep (Nat.not_lt_zero _)
  | succ depth ih =>
    rw [Signature.seenFrom]
    refine .bind (realizes_replaceThis terms liberal holds denotes selfDenotes) ?_
    intro after₁ replaced replaced' holds₁ onward₁ replacedDenotes
    have selfDenotes := terms.denotes holds holds₁ onward₁ selfDenotes
    have smaller := (terms.coherent holds₁).child_lt self selfDenotes.1
    have reads := selfDenotes.reads (terms.coherent holds₁)
    refine .look (run_node after₁ self) ?_
    generalize after₁.types.node self = layer at reads smaller
    cases reads with
    | applied feature isRef isThis argsDenote outerDenotes =>
      refine .feature holds₁ feature ?_
      intro declared _
      refine .branch Iff.rfl (fun _ => .pure holds₁ replacedDenotes) fun _ => ?_
      cases outerDenotes with
      | none => exact serves feature holds₁ argsDenote replacedDenotes
      | @some around _ aroundDenotes =>
        have smaller := smaller around (List.mem_append_right _ (by simp))
        refine .bind (ih holds₁ aroundDenotes replacedDenotes (by omega)) ?_
        intro after₂ seen seen' holds₂ onward₂ seenDenotes
        exact serves feature holds₂ (terms.denotesAll holds₁ holds₂ onward₂ argsDenote) seenDenotes
    | _ => exact .pure holds₁ replacedDenotes

theorem realizes_settleArgs (holds : terms.invariant checker) {feature : FeatureId}
    {args : List Ty} {outer : Option Ty} {isRef isThis : Bool}
    (denotes : checker.types.Denotes ty (.applied feature args outer isRef isThis))
    {newArgs : List TypeId} {newArgs' : List Ty}
    (newArgsDenote : List.Forall₂ checker.types.Denotes newArgs newArgs') :
    Realizes terms checker (settleArgs inner ty newArgs)
      (signature.argsUnder terms.toDemands call feature newArgs') fun after =>
        List.Forall₂ after.types.Denotes := by
  rw [Signature.argsUnder]
  split
  next may =>
    rw [Signature.settleArgs.eq_def, settleArgs, isMetatype, bind_assoc]
    refine .look (run_readTypes checker _) ?_
    rw [denotes.feature?_eq (terms.coherent holds)]
    dsimp only [Ty.appliedFeature?]
    rw [bind_assoc]
    refine .feature holds feature ?_
    intro declared found
    rw [pure_bind]
    cases origin : declared.origin with
    | none =>
      simp only [Feature.isCompanion, Feature.outline, origin]
      exact .pure holds newArgsDenote
    | some original =>
      have liberal : terms.Liberal := by
        refine may.resolve_right fun plain => ?_
        have isNone := plain _ ((terms.obeys holds).follows.feature_eq feature declared found)
        cases origin.symm.trans isNone
      simp only [Feature.isCompanion, Feature.outline, origin]
      cases newArgsDenote with
      | nil => exact .pure holds .nil
      | @cons self self' rest rest' selfDenotes restDenote =>
        refine .bind (.mapM lasting_denotes lasting_denotes holds restDenote ?_) ?_
        · intro after part _ part' holds' onward partDenotes
          have selfDenotes := terms.denotes holds holds' onward selfDenotes
          refine .branch (partDenotes.inj selfDenotes (terms.coherent holds'))
            (fun _ => .pure holds' partDenotes) fun _ => ?_
          exact realizes_seenFromWithin terms serves liberal holds' selfDenotes partDenotes
            (Nat.lt_succ_self _)
        intro after others others' holds' onward othersDenote
        exact .pure holds' (.cons (terms.denotes holds holds' onward selfDenotes) othersDenote)
  next mayNot =>
    refine .lenient (terms.unlimited.resolve_right fun unlimited => ?_)
    exact mayNot (.inl fun ty _ => unlimited.2 ty)

/-! ## One step -/

variable (owner : FeatureId) (holds : terms.invariant checker)
  (denote : List.Forall₂ checker.types.Denotes actuals actuals')

include owner holds denote

theorem realizes_substituteParts (target : TypeId) {feature : FeatureId} {args : List TypeId}
    {outer : Option TypeId} {args' : List Ty} {outer' : Option Ty} {isRef isThis : Bool}
    (denotes : checker.types.Denotes ty (.applied feature args' outer' isRef isThis))
    (argsDenote : List.Forall₂ checker.types.Denotes args args')
    (outerDenotes : Option.Rel checker.types.Denotes outer outer') :
    Realizes terms checker (substituteParts inner owner actuals target ty args outer)
      (signature.ownUnder terms.toDemands call owner actuals'
        (.applied feature args' outer' isRef isThis)) fun after => after.types.Denotes := by
  refine .bind (realizes_substituteListBy terms serves owner holds denote argsDenote) ?_
  intro after₁ newArgs newArgs' holds₁ onward₁ newArgsDenote
  have outerDenotes₁ := terms.denotesOption holds holds₁ onward₁ outerDenotes
  refine .bind (.optionMapM holds₁ outerDenotes₁ fun id _ tree =>
    serves owner holds₁ (terms.denotesAll holds holds₁ onward₁ denote)) ?_
  intro after₂ newOuter newOuter' holds₂ onward₂ newOuterDenotes
  have newArgsDenote := terms.denotesAll holds₁ holds₂ onward₂ newArgsDenote
  have onward := onward₁.trans onward₂
  refine .bind (realizes_settleArgs terms serves holds₂
    (terms.denotes holds holds₂ onward denotes) newArgsDenote) ?_
  intro after₃ settled settled' holds₃ onward₃ settledDenote
  have onward := onward.trans onward₃
  have newOuterDenotes := terms.denotesOption holds₂ holds₃ onward₃ newOuterDenotes
  have denotes := terms.denotes holds holds₃ onward denotes
  have coherent := terms.coherent holds₃
  have argsIff := TypeStore.Denotes.args_inj settledDenote
    (terms.denotesAll holds holds₃ onward argsDenote) coherent
  have outerIff := TypeStore.Denotes.outer_inj newOuterDenotes
    (terms.denotesOption holds holds₃ onward outerDenotes) coherent
  have errorIff := TypeStore.Denotes.outer_inj newOuterDenotes
    (.some (terms.denotes_error holds₃)) coherent
  have errorMemIff := TypeStore.Denotes.mem_iff settledDenote (terms.denotes_error holds₃) coherent
  simp only [Signature.rebuild, argsIff, outerIff, errorIff, errorMemIff]
  split
  next =>
    rw [Demands.replace, if_pos rfl]
    exact .pure holds₃ denotes
  next =>
    split
    next =>
      rw [Demands.replace, if_neg (by simp), Demands.make]
      split
      next loud =>
        refine .follow (.record holds₃ loud _) ?_
        intro after₄ _ holds₄ _ _
        exact .pure holds₄ (terms.denotes_error holds₄)
      next admitted =>
        exact .lenient (terms.unlimited.resolve_right fun unlimited => admitted (unlimited.2 _))
    next =>
      exact .replaces holds₃ denotes (TypeStore.makes_rebuild (terms.canonical holds₃) denotes
        settledDenote newOuterDenotes)

theorem realizes_substituteStep (denotes : checker.types.Denotes target target') :
    Realizes terms checker (substituteStep inner owner actuals target)
      (signature.stepUnder terms.toDemands call owner actuals' target')
        fun after => after.types.Denotes := by
  rw [Signature.stepUnder]
  refine .feature holds owner ?_
  intro declared found
  refine .follow (.note holds target _) ?_
  intro after₁ _ holds₁ onward₁ _
  have parents : List.Forall₂ (fun parent outline => outline.ancestor = parent.ancestor ∧
      List.Forall₂ checker.types.Denotes parent.actuals outline.actuals) declared.parents
      (declared.outline checker.types.tree).parents := by
    have wellFormed := (terms.obeys holds).features_wellFormed owner declared found
    apply List.forall₂_map_right_iff.mpr
    apply List.forall₂_same.mpr
    intro parent member
    exact ⟨rfl, TypeStore.Denotes.forall₂_iff.mpr ⟨wellFormed.actuals_held parent member, rfl⟩⟩
  refine .bind (.foldlM parents holds₁ (terms.denotes holds holds₁ onward₁ denotes) ?_) ?_
  · rintro after id ty parent outline holds' onward denotes' ⟨ancestorEq, actualsDenote⟩
    rw [ancestorEq]
    exact serves parent.ancestor holds'
      (terms.denotesAll holds holds' (onward₁.trans onward) actualsDenote) denotes'
  intro after₂ ty ty' holds₂ onward₂ tyDenotes
  have denote := terms.denotesAll holds holds₂ (onward₁.trans onward₂) denote
  refine .node holds₂ tyDenotes ?_
  intro layer reads
  cases reads with
  | formal id boxed => exact realizes_substituteFormal terms holds₂ owner denote tyDenotes
  | applied feature isRef isThis argsDenote outerDenotes =>
    exact realizes_substituteParts terms serves owner holds₂ denote target tyDenotes argsDenote
      outerDenotes
  | _ => exact .pure holds₂ tyDenotes

end

/-! ## Remembered results -/

section

variable (obeys : checker.Obeys signature)

include obeys

theorem finds_recallByOwner (on : checker.options.memoize = true) {owner : FeatureId}
    (denote : List.Forall₂ checker.types.Denotes actuals actuals')
    (denotes : checker.types.Denotes target target') :
    Finds signature checker (recallByOwner ⟨target, owner, actuals⟩) fun after found =>
      ∀ result, found = some result → ∃ value,
        signature.substituteStep signature.substitute owner actuals' target' = some value ∧
          after.types.Denotes result value := by
  intro found after run
  rw [run_recallByOwner] at run
  obtain ⟨rfl, rfl⟩ := EStateM.Result.ok.inj run
  refine ⟨obeys.grow obeys.types_canonical (.refl _) rfl rfl (Memo.consult_entries _ _) rfl,
    ⟨.refl _, rfl, rfl⟩, ?_⟩
  intro result found
  obtain ⟨_, _, value, denote', denotes', resultDenotes, prescribed⟩ :=
    (obeys.memos_mean on).byOwner_means _ result found
  obtain rfl := TypeStore.Denotes.args_unique denote denote'
  obtain rfl := denotes.unique denotes'
  exact ⟨value, prescribed, resultDenotes⟩

theorem finds_rememberByOwner {owner : FeatureId} {result : TypeId} {value : Ty}
    (denote : List.Forall₂ checker.types.Denotes actuals actuals')
    (denotes : checker.types.Denotes target target')
    (resultDenotes : checker.types.Denotes result value)
    (prescribed :
      signature.substituteStep signature.substitute owner actuals' target' = some value) :
    Finds signature checker (rememberByOwner ⟨target, owner, actuals⟩ result)
      fun _ _ => True := by
  intro _ after run
  obtain ⟨_, rfl⟩ := EStateM.Result.ok.inj run
  refine ⟨⟨⟨obeys.types_canonical, obeys.features_wellFormed⟩,
    ⟨obeys.follows.feature_eq, obeys.follows.inherits_eq⟩,
    fun on => ⟨?_, (obeys.memos_mean on).viaType_means⟩⟩, ⟨.refl _, rfl, rfl⟩, trivial⟩
  intro key result' found
  rcases Memo.remember_cases _ found with ⟨sameKey, rfl⟩ | earlier
  · obtain rfl := SubstitutionKey.eq_of_compare sameKey
    exact ⟨actuals', target', value, denote, denotes, resultDenotes, prescribed⟩
  · exact (obeys.memos_mean on).byOwner_means key result' earlier

theorem finds_recallViaType (on : checker.options.memoize = true)
    (sourceDenotes : checker.types.Denotes source source')
    (denotes : checker.types.Denotes target target') :
    Finds signature checker (recallViaType ⟨source, target⟩) fun after found =>
      ∀ result, found = some result → ∃ value,
        signature.viewStep signature.substituteVia source' target' = some value ∧
          after.types.Denotes result value := by
  intro found after run
  rw [run_recallViaType] at run
  obtain ⟨rfl, rfl⟩ := EStateM.Result.ok.inj run
  refine ⟨obeys.grow obeys.types_canonical (.refl _) rfl rfl rfl (Memo.consult_entries _ _),
    ⟨.refl _, rfl, rfl⟩, ?_⟩
  intro result found
  obtain ⟨_, _, value, sourceDenotes', denotes', resultDenotes, prescribed⟩ :=
    (obeys.memos_mean on).viaType_means _ result found
  obtain rfl := sourceDenotes.unique sourceDenotes'
  obtain rfl := denotes.unique denotes'
  exact ⟨value, prescribed, resultDenotes⟩

theorem finds_rememberViaType {result : TypeId} {value : Ty}
    (sourceDenotes : checker.types.Denotes source source')
    (denotes : checker.types.Denotes target target')
    (resultDenotes : checker.types.Denotes result value)
    (prescribed : signature.viewStep signature.substituteVia source' target' = some value) :
    Finds signature checker (rememberViaType ⟨source, target⟩ result) fun _ _ => True := by
  intro _ after run
  obtain ⟨_, rfl⟩ := EStateM.Result.ok.inj run
  refine ⟨⟨⟨obeys.types_canonical, obeys.features_wellFormed⟩,
    ⟨obeys.follows.feature_eq, obeys.follows.inherits_eq⟩,
    fun on => ⟨(obeys.memos_mean on).byOwner_means, ?_⟩⟩, ⟨.refl _, rfl, rfl⟩, trivial⟩
  intro key result' found
  rcases Memo.remember_cases _ found with ⟨sameKey, rfl⟩ | earlier
  · obtain rfl := ViewKey.eq_of_compare sameKey
    exact ⟨source', target', value, sourceDenotes, denotes, resultDenotes, prescribed⟩
  · exact (obeys.memos_mean on).viaType_means key result' earlier

end

/-- Working something out may come to fewer results than what is remembered. -/
theorem realizes_memoized (holds : terms.invariant checker) {known : CheckM (Option TypeId)}
    {remember : TypeId → CheckM Unit} {compute : CheckM TypeId} {meaning prescribed : Option Ty}
    (right : ∀ value, meaning = some value → prescribed = some value)
    (exhaustive : terms.lenient ∨ meaning = prescribed)
    (knows : checker.options.memoize = true → Realizes terms checker known (some ())
      fun after found _ => ∀ result, found = some result → ∃ value, prescribed = some value ∧
        after.types.Denotes result value)
    (computes : ∀ after, terms.invariant after → checker.Onward after →
      Realizes terms after compute meaning fun after => after.types.Denotes)
    (remembers : ∀ after result value, terms.invariant after → checker.Onward after →
      prescribed = some value → after.types.Denotes result value →
        Realizes terms after (remember result) (some ()) fun _ _ _ => True) :
    Realizes terms checker (memoized known remember compute) meaning fun after =>
      after.types.Denotes := by
  cases on : checker.options.memoize with
  | false => exact .congr (run_memoized_off on) (computes checker holds (.refl _))
  | true =>
    refine .congr (run_memoized_on on) (.follow (knows on) ?_)
    intro after₁ found holds₁ onward₁ knowing
    cases found with
    | some result =>
      obtain ⟨value, isValue, denotes⟩ := knowing result rfl
      cases settled : meaning with
      | none =>
        refine .lenient (exhaustive.resolve_right fun same => ?_)
        cases settled.symm.trans (same.trans isValue)
      | some value' =>
        obtain rfl := Option.some.inj ((right value' settled).symm.trans isValue)
        exact .pure holds₁ denotes
    | none =>
      rw [← bind_pure meaning]
      refine .bind (computes after₁ holds₁ onward₁).noting ?_
      rintro after₂ result value holds₂ onward₂ ⟨isValue, denotes⟩
      refine .follow (remembers after₂ result value holds₂ (onward₁.trans onward₂)
        (right value isValue) denotes) ?_
      intro after₃ _ holds₃ onward₃ _
      exact .pure holds₃ (terms.denotes holds₂ holds₃ onward₃ denotes)

/-! ## Substitution through a feature -/

/-- What a substitution within growing depths is held to. -/
structure Deepens (call : Nat → FeatureId → List Ty → Ty → Option Ty) : Prop where
  zero : terms.excuses .depthExceeded ∨
    ∀ owner actuals target, call 0 owner actuals target = none
  succ : ∀ depth owner actuals target, call (depth + 1) owner actuals target =
    signature.equationUnder terms.toDemands
      (fun input => call depth input.1 input.2.1 input.2.2) (owner, actuals, target)
  right : ∀ depth owner actuals target value,
    signature.stepUnder terms.toDemands (call depth) owner actuals target = some value →
      signature.substituteStep signature.substitute owner actuals target = some value
  exhaustive : terms.lenient ∨ ∀ depth owner actuals target,
    signature.stepUnder terms.toDemands (call depth) owner actuals target =
      signature.substituteStep signature.substitute owner actuals target

section

variable {call : Nat → FeatureId → List Ty → Ty → Option Ty} (deepens : Deepens terms call)

include deepens

theorem realizes_memoizedStep {depth : Nat}
    (serves : Serves terms (substituteWithin depth) (call depth)) (owner : FeatureId)
    (holds : terms.invariant checker)
    (denote : List.Forall₂ checker.types.Denotes actuals actuals')
    (denotes : checker.types.Denotes target target') :
    Realizes terms checker (do
      if !(← readTypes (·.mentionsFormal target)) then return target
      memoized (recallByOwner ⟨target, owner, actuals⟩) (rememberByOwner ⟨target, owner, actuals⟩)
        (substituteStep (substituteWithin depth) owner actuals target))
      (if !target'.mentionsFormal then some target'
        else signature.stepUnder terms.toDemands (call depth) owner actuals' target')
      fun after => after.types.Denotes := by
  refine .look (run_readTypes checker _) ?_
  rw [TypeStore.mentionsFormal_eq (terms.coherent holds) denotes.1, denotes.2]
  refine .branch Iff.rfl (fun _ => .pure holds denotes) fun _ => ?_
  refine realizes_memoized terms holds (deepens.right depth owner actuals' target')
    (deepens.exhaustive.imp_right fun same => same depth owner actuals' target')
    (fun on => .of_finds holds (finds_recallByOwner (terms.obeys holds) on denote denotes)
      (run_recallByOwner _ _) rfl rfl rfl) ?_ ?_
  · intro after holds' onward
    exact realizes_substituteStep terms serves owner holds'
      (terms.denotesAll holds holds' onward denote) (terms.denotes holds holds' onward denotes)
  · intro after result value holds' onward prescribed resultDenotes
    exact .of_finds holds' (finds_rememberByOwner (terms.obeys holds')
      (terms.denotesAll holds holds' onward denote)
      (terms.denotes holds holds' onward denotes) resultDenotes prescribed) rfl rfl rfl rfl

/-- At every depth the substituter serves what the equation gives at that depth. -/
theorem serves_substituteWithin (depth : Nat) :
    Serves terms (substituteWithin depth) (call depth) := by
  induction depth with
  | zero =>
    intro checker owner actuals actuals' target target' _ _ _
    exact .of_error rfl (deepens.zero.symm.imp_left fun isNone => isNone _ _ _)
  | succ depth ih =>
    intro checker owner actuals actuals' target target' holds denote denotes
    rw [deepens.succ, Signature.equationUnder]
    by_cases strict : terms.strict
    · -- The number of actuals is demanded to fit, so that the check of it passes.
      split
      · exact .lenient (terms.unlimited.resolve_right fun unlimited => unlimited.1 strict)
      next accepts =>
        rw [not_and, not_not] at accepts
        obtain ⟨declared, found, fits⟩ := terms.accepted strict holds (accepts strict)
        have actualsMatch : (actualsMatch owner actuals).run checker = .ok true checker := by
          rw [run_actualsMatch checker found, denote.length_eq, fits]
        exact .look actualsMatch (.look (run_expect checker .actualsMatch true)
          (realizes_memoizedStep terms deepens ih owner holds denote denotes))
    · -- Whether it fits or not, the run goes on or fails for a reason that is excused.
      rw [if_neg fun both => strict both.1]
      have excused := (terms.excused strict).2
      cases found : checker.features.get owner with
      | error failure =>
        have run : (substituteWithin (depth + 1) owner actuals target).run checker =
            .error failure checker := by
          simp [substituteWithin, actualsMatch, feature, EStateM.run_bind, run_readFeatures, found,
            answer]
        refine .of_error run (.inr (excused failure ?_))
        rintro rfl
        rw [FeatureTable.get] at found
        split at found <;> cases found
      | ok declared =>
        refine .look (run_actualsMatch checker found actuals)
          (.follow (.expect holds strict _ _) ?_)
        intro after₁ _ holds₁ onward₁ _
        exact realizes_memoizedStep terms deepens ih owner holds₁
          (terms.denotesAll holds holds₁ onward₁ denote)
          (terms.denotes holds holds₁ onward₁ denotes)

end

/-- Without demands, the depth makes no difference to the meaning. -/
theorem deepens_free : Deepens (.free signature) fun _ => signature.substitute where
  zero := .inl trivial
  succ _ owner actuals target := by
    rw [Signature.substitute_eq]
    exact (signature.equationUnder_lax _ owner actuals target).symm
  right _ owner actuals target _ settled := Signature.substituteStep_of_stepUnder settled
  exhaustive := .inr fun _ owner actuals target => by
    change signature.stepUnder .lax _ _ _ _ = _
    rw [Signature.stepUnder_lax]

theorem substituteWithin_keepsTo (depth : Nat) : (substituteWithin depth).KeepsTo signature :=
  serves_substituteWithin (.free signature) deepens_free depth

theorem substitute_keepsTo : substitute.KeepsTo signature := by
  intro checker owner actuals actuals' target target' obeys denote denotes
  exact .look (EStateM.run_get checker) (substituteWithin_keepsTo _ owner obeys denote denotes)

/-! ## Substitution through a type -/

theorem realizes_viewStep {inner : Substituter} {call : FeatureId → List Ty → Ty → Option Ty}
    (serves : Serves terms inner call) {view : (source target : TypeId) → CheckM TypeId}
    {view' : Ty → Ty → Option Ty} (holds : terms.invariant checker)
    (views : ∀ after source source' target target', terms.invariant after →
      after.types.Denotes source source' → after.types.Denotes target target' →
        Realizes terms after (view source target) (view' source' target')
          fun after => after.types.Denotes) (sourceDenotes : checker.types.Denotes source source')
    (denotes : checker.types.Denotes target target') :
    Realizes terms checker (viewStep inner view source target)
      (signature.viewStepBy call view' source' target') fun after => after.types.Denotes := by
  rw [Signature.viewStepBy.eq_def]
  refine .node holds sourceDenotes ?_
  intro layer reads
  cases reads with
  | formal id boxed =>
    refine .bind (realizes_constraint? terms holds id) ?_
    intro after₁ constraint constraint' holds₁ onward₁ constraintDenotes
    have denotes := terms.denotes holds holds₁ onward₁ denotes
    have sourceDenotes := terms.denotes holds holds₁ onward₁ sourceDenotes
    cases constraintDenotes with
    | none => exact .pure holds₁ denotes
    | some constraintDenotes =>
      refine .branch (constraintDenotes.inj sourceDenotes (terms.coherent holds₁))
        (fun _ => .pure holds₁ denotes) fun _ => ?_
      exact views after₁ _ _ _ _ holds₁ constraintDenotes denotes
  | applied feature isRef isThis argsDenote outerDenotes =>
    refine .bind (serves feature holds argsDenote denotes) ?_
    intro after₁ result result' holds₁ onward₁ resultDenotes
    cases outerDenotes with
    | none => exact .pure holds₁ resultDenotes
    | some aroundDenotes =>
      exact views after₁ _ _ _ _ holds₁ (terms.denotes holds holds₁ onward₁ aroundDenotes)
        resultDenotes
  | error => exact .pure holds (terms.denotes_error holds)
  | _ => exact .pure holds denotes

/-- What a substitution through a type within growing depths is held to. -/
structure DeepensVia (call : Nat → FeatureId → List Ty → Ty → Option Ty)
    (view : Nat → Ty → Ty → Option Ty) : Prop where
  zero : terms.excuses .depthExceeded ∨ ∀ source target, view 0 source target = none
  succ : ∀ depth source target, view (depth + 1) source target =
    if !target.mentionsFormal then some target
    else signature.viewStepBy (call depth) (view depth) source target
  right : ∀ depth source target value,
    signature.viewStepBy (call depth) (view depth) source target = some value →
      signature.viewStep signature.substituteVia source target = some value
  exhaustive : terms.lenient ∨ ∀ depth source target,
    signature.viewStepBy (call depth) (view depth) source target =
      signature.viewStep signature.substituteVia source target

theorem realizes_substituteViaWithin {call : Nat → FeatureId → List Ty → Ty → Option Ty}
    (deepens : Deepens terms call) {view : Nat → Ty → Ty → Option Ty}
    (deepensVia : DeepensVia terms call view) (depth : Nat) (holds : terms.invariant checker)
    (sourceDenotes : checker.types.Denotes source source')
    (denotes : checker.types.Denotes target target') :
    Realizes terms checker (substituteViaWithin depth source target)
      (view depth source' target') fun after => after.types.Denotes := by
  induction depth generalizing checker source target source' target' with
  | zero => exact .of_error rfl (deepensVia.zero.symm.imp_left fun isNone => isNone _ _)
  | succ depth ih =>
    rw [deepensVia.succ]
    refine .look (run_readTypes checker _) ?_
    rw [TypeStore.mentionsFormal_eq (terms.coherent holds) denotes.1, denotes.2]
    refine .branch Iff.rfl (fun _ => .pure holds denotes) fun _ => ?_
    refine realizes_memoized terms holds (deepensVia.right depth source' target')
      (deepensVia.exhaustive.imp_right fun same => same depth source' target')
      (fun on => .of_finds holds
        (finds_recallViaType (terms.obeys holds) on sourceDenotes denotes)
        (run_recallViaType _ _) rfl rfl rfl) ?_ ?_
    · intro after holds' onward
      refine realizes_viewStep terms (serves_substituteWithin terms deepens depth) holds' ?_
        (terms.denotes holds holds' onward sourceDenotes)
        (terms.denotes holds holds' onward denotes)
      intro after source source' target target' holds'
      exact ih holds'
    · intro after result value holds' onward prescribed resultDenotes
      exact .of_finds holds' (finds_rememberViaType (terms.obeys holds')
        (terms.denotes holds holds' onward sourceDenotes)
        (terms.denotes holds holds' onward denotes) resultDenotes prescribed) rfl rfl rfl rfl

section

variable (lenient : terms.lenient)

include lenient

theorem deepens_within : Deepens terms (signature.substituteWithin terms.toDemands) where
  zero := .inr fun _ _ _ => rfl
  succ _ _ _ _ := rfl
  right depth _ _ _ _ := Signature.prescribed_of_unfolding depth
  exhaustive := .inl lenient

/-- What is seen at some depth is what the declarations let be seen. -/
theorem realizes_viewWithin (depth : Nat) (holds : terms.invariant checker)
    (sourceDenotes : checker.types.Denotes source source')
    (denotes : checker.types.Denotes target target') :
    Realizes terms checker (substituteViaWithin depth source target)
      (signature.viewWithin terms.toDemands depth source' target') fun after =>
        after.types.Denotes := by
  refine realizes_substituteViaWithin terms (deepens_within terms lenient)
    ⟨.inr fun _ _ => rfl, fun _ _ _ => rfl, fun depth source target value => ?_, .inl lenient⟩ _
    holds sourceDenotes denotes
  exact Signature.viewStep_of_viewStepBy fun _ _ _ => Signature.substituteVia_of_viewWithin

end

theorem means_substituteViaWithin (depth : Nat) (obeys : checker.Obeys signature)
    (sourceDenotes : checker.types.Denotes source source')
    (denotes : checker.types.Denotes target target') :
    Means signature checker (substituteViaWithin depth source target)
      (signature.substituteVia source' target') fun after => after.types.Denotes := by
  have deepensVia : DeepensVia (.free signature) (fun _ => signature.substitute)
      fun _ => signature.substituteVia := by
    refine ⟨.inl trivial, ?_, ?_, .inr ?_⟩ <;> intro depth source target
    · rw [Signature.viewStepBy_substitute, ← Signature.substituteVia_eq]
    · simp only [Signature.viewStepBy_substitute, imp_self, implies_true]
    · rw [Signature.viewStepBy_substitute]
  exact realizes_substituteViaWithin _ deepens_free deepensVia depth obeys sourceDenotes denotes

section

variable (depth : Nat) (obeys : checker.Obeys signature)
  (denotes : checker.types.Denotes target target')

include obeys denotes

theorem means_substituteStep (owner : FeatureId)
    (denote : List.Forall₂ checker.types.Denotes actuals actuals') :
    Means signature checker (substituteStep (substituteWithin depth) owner actuals target)
      (signature.substituteStep signature.substitute owner actuals' target')
        fun after => after.types.Denotes := by
  rw [← Signature.stepUnder_lax]
  exact realizes_substituteStep _ (substituteWithin_keepsTo depth) owner obeys denote denotes

theorem means_viewStep (sourceDenotes : checker.types.Denotes source source') :
    Means signature checker
      (viewStep (substituteWithin depth) (substituteViaWithin depth) source target)
      (signature.viewStep signature.substituteVia source' target')
        fun after => after.types.Denotes := by
  rw [← Signature.viewStepBy_substitute]
  exact realizes_viewStep _ (substituteWithin_keepsTo depth) obeys
    (fun _ _ _ _ _ obeys' => means_substituteViaWithin depth obeys') sourceDenotes denotes

end

theorem means_summandsWithin? (depth : Nat) {ty' : Ty} (obeys : checker.Obeys signature)
    (denotes : checker.types.Denotes ty ty') :
    Means signature checker (summandsWithin? depth ty) (signature.summands? ty') fun after =>
      Option.Rel (List.Forall₂ after.types.Denotes) := by
  have liberal : (Terms.free signature).Liberal := Demands.liberal_lax
  refine Realizes.node obeys denotes ?_
  intro layer reads
  cases reads with
  | applied feature isRef isThis argsDenote outerDenotes =>
    refine .feature obeys feature ?_
    intro declared found
    have wellFormed := obeys.features_wellFormed feature declared found
    dsimp only [Feature.outline]
    cases isChoice : declared.summands with
    | none => exact .pure obeys .none
    | some summands =>
      have summandsDenote : List.Forall₂ checker.types.Denotes summands
          (summands.map checker.types.tree) :=
        TypeStore.Denotes.forall₂_iff.mpr ⟨wellFormed.summands_held summands isChoice, rfl⟩
      refine .bind (realizes_substituteListBy _ (substituteWithin_keepsTo depth) feature obeys
        argsDenote summandsDenote) ?_
      intro after₁ substituted substituted' obeys₁ onward₁ substitutedDenote
      refine .bind (.mapM lasting_denotes lasting_denotes obeys₁ substitutedDenote ?_) ?_
      · intro after part _ part' obeys' onward partDenotes
        exact realizes_replaceThis _ liberal obeys' partDenotes
          (obeys.denotes obeys' (onward₁.trans onward) denotes)
      intro after₂ seen seen' obeys₂ _ seenDenote
      exact .pure obeys₂ (.some seenDenote)
  | _ => exact .pure obeys .none

end Checker

end FeatureTypes

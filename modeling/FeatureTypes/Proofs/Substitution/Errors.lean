import FeatureTypes.Proofs.Checker.Keeps
import FeatureTypes.Proofs.Memo.Basic
import FeatureTypes.Proofs.Store.Whole
import Mathlib.Logic.Relation

/-!
# Errors come to the root

If the error type is never inside another type to begin with, then a substitution does not
bury it there either: where a part becomes the error type, so does the whole.
-/

namespace FeatureTypes.Checker

variable {actuals : List TypeId} {ty source result target : TypeId}

/-! ## Clean declarations -/

/-- What features hand to their parents is the error type or has no error types in it. -/
def ActualsClean (checker : Checker) : Prop :=
  ∀ id declared, checker.features.get id = .ok declared → ∀ parent ∈ declared.parents,
    ∀ actual ∈ parent.actuals, checker.types.Clean actual

/-- From the type `source` one looks on through its outer type, or through its constraint if
it is a formal. -/
inductive LeadsTo (types : TypeStore) (features : FeatureTable) (source : TypeId) : TypeId → Prop
  | outer {feature : FeatureId} {args : List TypeId} {around : TypeId} {isRef isThis : Bool}
      (layer : types.node source = .applied feature args (some around) isRef isThis) :
      LeadsTo types features source around
  | constraint {id : FormalId} {boxed : Bool} {formal : Formal}
      (layer : types.node source = .formal id boxed)
      (present : features.formal? id = .ok (some formal)) :
      LeadsTo types features source formal.constraint

/-- The arguments of all types that one looks through from `source` on are clean. -/
def ViewClean (checker : Checker) (source : TypeId) : Prop :=
  ∀ ty, Relation.ReflTransGen (LeadsTo checker.types checker.features) source ty →
    ∀ arg ∈ checker.types.args ty, checker.types.Clean arg

/-- Remembered results are clean where what they were worked out from is. -/
structure MemosClean (checker : Checker) : Prop where
  byOwner_held : ∀ (key : SubstitutionKey) (result : TypeId),
    checker.byOwner.entries[key]? = some result →
      checker.types.Holds key.target ∧ ∀ actual ∈ key.actuals, checker.types.Holds actual
  byOwner_clean : ∀ (key : SubstitutionKey) (result : TypeId),
    checker.byOwner.entries[key]? = some result → checker.types.Clean key.target →
      (∀ actual ∈ key.actuals, checker.types.Clean actual) → checker.types.Clean result
  viaType_held : ∀ (key : ViewKey) (result : TypeId),
    checker.viaType.entries[key]? = some result →
      checker.types.Holds key.source ∧ checker.types.Holds key.target
  viaType_clean : ∀ (key : ViewKey) (result : TypeId),
    checker.viaType.entries[key]? = some result → checker.types.Clean key.target →
      checker.ViewClean key.source → checker.types.Clean result

/-! ## Growth -/

theorem WellFormed.constraint_held {checker : Checker} (wellFormed : checker.WellFormed)
    {id : FormalId} {formal : Formal} (present : checker.features.formal? id = .ok (some formal)) :
    checker.types.Holds formal.constraint := by
  obtain ⟨declared, found, result⟩ := except_bind_eq_ok present
  exact (wellFormed.features_wellFormed id.feature declared found).constraint_held formal
    (List.mem_of_getElem? (Except.ok.inj result))

section

variable {checker later : Checker} (wellFormed : checker.WellFormed)
  (extension : checker.types.Extends later.types)

include wellFormed extension

variable (develops : checker.features.Develops later.features)

include develops

theorem ActualsClean.of_develops (clean : later.ActualsClean) : checker.ActualsClean := by
  intro id declared found parent member actual present
  obtain ⟨declared', found', kept⟩ := develops id declared found
  have held := (wellFormed.features_wellFormed id declared found).actuals_held parent member
    actual present
  exact (clean id declared' found' parent (kept.parents_kept parent member) actual
    present).of_larger held extension

theorem LeadsTo.of_develops {next : TypeId} (held : checker.types.Holds source)
    (leads : LeadsTo checker.types checker.features source next) :
    LeadsTo later.types later.features source next ∧ checker.types.Holds next := by
  cases leads with
  | outer layer =>
    refine ⟨.outer ((extension.node_eq held).trans layer), ?_⟩
    apply wellFormed.types_canonical.child_holds held
    rw [layer]
    exact List.mem_append_right _ (by simp)
  | constraint layer present =>
    exact ⟨.constraint ((extension.node_eq held).trans layer) (develops.formal?_eq present),
      wellFormed.constraint_held present⟩

theorem ViewClean.of_develops (held : checker.types.Holds source) (clean : later.ViewClean source) :
    checker.ViewClean source := by
  have still : ∀ ty, Relation.ReflTransGen (LeadsTo checker.types checker.features) source ty →
      Relation.ReflTransGen (LeadsTo later.types later.features) source ty ∧
        checker.types.Holds ty := by
    intro ty path
    induction path with
    | refl => exact ⟨.refl, held⟩
    | tail _ leads ih =>
      obtain ⟨path, tyHeld⟩ := ih
      obtain ⟨leads', nextHeld⟩ := leads.of_develops wellFormed extension develops tyHeld
      exact ⟨path.tail leads', nextHeld⟩
  intro ty path arg member
  obtain ⟨path', tyHeld⟩ := still ty path
  have argHeld : checker.types.Holds arg := by
    apply wellFormed.types_canonical.child_holds tyHeld
    unfold TypeStore.args at member
    cases layer : checker.types.node ty with
    | applied feature args outer isRef isThis =>
      rw [layer] at member
      exact List.mem_append_left _ member
    | _ => simp [layer] at member
  refine (clean ty path' arg ?_).of_larger argHeld extension
  rw [TypeStore.args, extension.node_eq tyHeld]
  exact member

/-- Clean memo tables stay clean when features are declared. -/
theorem MemosClean.of_develops (clean : checker.MemosClean)
    (byOwnerEq : later.byOwner.entries = checker.byOwner.entries)
    (viaTypeEq : later.viaType.entries = checker.viaType.entries) : later.MemosClean := by
  refine ⟨?_, ?_, ?_, ?_⟩
  · rw [byOwnerEq]
    intro key result found
    obtain ⟨targetHeld, actualsHeld⟩ := clean.byOwner_held key result found
    exact ⟨extension.holds targetHeld,
      fun actual member => extension.holds (actualsHeld actual member)⟩
  · rw [byOwnerEq]
    intro key result found targetClean actualsClean
    obtain ⟨targetHeld, actualsHeld⟩ := clean.byOwner_held key result found
    refine (clean.byOwner_clean key result found (targetClean.of_larger targetHeld extension)
      fun actual member => ?_).of_extends extension
    exact (actualsClean actual member).of_larger (actualsHeld actual member) extension
  · rw [viaTypeEq]
    intro key result found
    obtain ⟨sourceHeld, targetHeld⟩ := clean.viaType_held key result found
    exact ⟨extension.holds sourceHeld, extension.holds targetHeld⟩
  · rw [viaTypeEq]
    intro key result found targetClean viewClean
    obtain ⟨sourceHeld, targetHeld⟩ := clean.viaType_held key result found
    exact (clean.viaType_clean key result found (targetClean.of_larger targetHeld extension)
      (viewClean.of_develops wellFormed extension develops sourceHeld)).of_extends extension

end

theorem ViewClean.onward {checker later : Checker} (wellFormed : checker.WellFormed)
    (onward : checker.Onward later) (held : checker.types.Holds source)
    (clean : checker.ViewClean source) : later.ViewClean source := by
  have before : ∀ ty, Relation.ReflTransGen (LeadsTo later.types later.features) source ty →
      Relation.ReflTransGen (LeadsTo checker.types checker.features) source ty ∧
        checker.types.Holds ty := by
    intro ty path
    induction path with
    | refl => exact ⟨.refl, held⟩
    | @tail ty next _ leads ih =>
      obtain ⟨path, tyHeld⟩ := ih
      have leads' : LeadsTo checker.types checker.features ty next := by
        cases leads with
        | outer layer => exact .outer ((onward.types_extend.node_eq tyHeld).symm.trans layer)
        | constraint layer present =>
          rw [onward.features_eq] at present
          exact .constraint ((onward.types_extend.node_eq tyHeld).symm.trans layer) present
      exact ⟨path.tail leads', (leads'.of_develops wellFormed (.refl _) (.refl _) tyHeld).2⟩
  intro ty path arg member
  obtain ⟨path', tyHeld⟩ := before ty path
  rw [TypeStore.args, onward.types_extend.node_eq tyHeld] at member
  exact (clean ty path' arg member).of_extends onward.types_extend

/-! ## The invariant -/

/-- A well-formed checker with clean declarations that remembers clean results. -/
structure Guarded (checker : Checker) : Prop extends checker.WellFormed where
  actuals_clean : checker.ActualsClean
  memos_clean : checker.options.memoize = true → checker.MemosClean

instance enduring_guarded : Enduring Guarded where
  wellFormed guarded := guarded.toWellFormed
  grow {checker later} guarded canonical extension featuresEq memoizeEq byOwnerEq viaTypeEq := by
    refine ⟨⟨canonical, ?_⟩, ?_, ?_⟩
    · rw [featuresEq]
      exact guarded.features_wellFormed.of_extends extension
    · intro id declared found parent member actual present
      rw [featuresEq] at found
      exact (guarded.actuals_clean id declared found parent member actual present).of_extends
        extension
    · intro on
      refine (guarded.memos_clean (memoizeEq ▸ on)).of_develops guarded.toWellFormed extension ?_
        byOwnerEq viaTypeEq
      rw [featuresEq]
      exact .refl _

variable {checker : Checker}

/-! ## Types of enclosing instances -/

theorem keeps_rebuild (guarded : checker.Guarded) {feature : FeatureId} {args : List TypeId}
    {outer : Option TypeId} {isRef isThis : Bool} (held : checker.types.Holds ty)
    (layer : checker.types.node ty = .applied feature args outer isRef isThis)
    {newArgs : List TypeId} (argsWhole : ∀ arg ∈ newArgs, checker.types.Whole arg)
    {newOuter : Option TypeId} (outerWhole : ∀ around ∈ newOuter, checker.types.Whole around) :
    Keeps Guarded checker (onTypes (·.rebuild ty newArgs newOuter)) fun after =>
      after.types.Whole := by
  have coherent := guarded.types_canonical.toCoherent
  have denotes : checker.types.Denotes ty (checker.types.tree ty) := ⟨held, rfl⟩
  rw [TypeStore.tree_eq coherent held, layer, Node.toTy] at denotes
  refine .weaken (.makes guarded (TypeStore.makes_rebuild guarded.types_canonical
    denotes (TypeStore.Denotes.forall₂_iff.mpr ⟨fun arg member => (argsWhole arg member).1, rfl⟩)
    (TypeStore.Denotes.option_rel_iff.mpr
      ⟨fun around present => (outerWhole around present).1, rfl⟩))) ?_
  intro after result guarded' _ resultDenotes
  refine .of_denotes guarded'.types_canonical.toCoherent resultDenotes ?_
  rw [Ty.whole_applied_iff]
  refine ⟨?_, ?_⟩
  · intro arg member
    obtain ⟨argId, argMember, rfl⟩ := List.mem_map.mp member
    exact ((TypeStore.whole_iff coherent).mp (argsWhole argId argMember)).2
  · intro around present
    obtain ⟨aroundId, aroundPresent, rfl⟩ := Option.map_eq_some_iff.mp present
    exact ((TypeStore.whole_iff coherent).mp (outerWhole aroundId aroundPresent)).2

theorem lasts_whole : Keeps.Lasts fun checker => checker.types.Whole :=
  fun _ _ _ onward whole => whole.of_extends onward.types_extend

theorem lasts_clean : Keeps.Lasts fun checker => checker.types.Clean :=
  fun _ _ _ onward clean => clean.of_extends onward.types_extend

theorem keeps_mapParts {transform : TypeId → CheckM TypeId} (guarded : checker.Guarded)
    (whole : checker.types.Whole ty)
    (each : ∀ after part, after.Guarded → checker.Onward after → after.types.Whole part →
      Keeps Guarded after (transform part) fun after => after.types.Whole) :
    Keeps Guarded checker (mapParts transform ty) fun after => after.types.Whole := by
  have partWhole : ∀ part ∈ (checker.types.node ty).children, checker.types.Whole part :=
    fun _ => whole.child guarded.types_canonical.toCoherent
  refine .look (run_node checker ty) ?_
  cases layer : checker.types.node ty with
  | applied feature args outer isRef isThis =>
    rw [layer] at partWhole
    refine .bind (.mapM lasts_whole guarded fun after arg member guarded' onward =>
      each after arg guarded' onward (lasts_whole onward
        (partWhole arg (List.mem_append_left _ member)))) ?_
    intro after₁ newArgs guarded₁ onward₁ argsWhole
    refine .bind (.optionMapM guarded₁ fun around present =>
      each after₁ around guarded₁ onward₁ (lasts_whole onward₁
        (partWhole around (List.mem_append_right _ (Option.mem_toList.mpr present))))) ?_
    intro after₂ newOuter guarded₂ onward₂ outerWhole
    have onward := onward₁.trans onward₂
    refine keeps_rebuild guarded₂ (onward.types_extend.holds whole.1)
      ((onward.types_extend.node_eq whole.1).trans layer) ?_ outerWhole
    exact fun arg member => lasts_whole onward₂ (argsWhole arg member)
  | _ => exact .pure guarded whole

theorem keeps_transformWithin {visit : TypeId → CheckM (Option TypeId)} (depth : Nat)
    (guarded : checker.Guarded) (whole : checker.types.Whole ty)
    (each : ∀ after part, after.Guarded → checker.Onward after → after.types.Whole part →
      Keeps Guarded after (visit part) fun after result =>
        ∀ settled ∈ result, after.types.Whole settled) :
    Keeps Guarded checker (transformWithin visit depth ty) fun after => after.types.Whole := by
  induction depth generalizing checker ty with
  | zero => exact .fail .depthExceeded _
  | succ depth ih =>
    refine .bind (each checker ty guarded (.refl _) whole) ?_
    intro after₁ result guarded₁ onward₁ settledWhole
    cases result with
    | some settled => exact .pure guarded₁ (settledWhole settled rfl)
    | none =>
      refine keeps_mapParts guarded₁ (lasts_whole onward₁ whole) ?_
      intro after₂ part guarded₂ onward₂ partWhole
      exact ih guarded₂ partWhole fun after part guarded' onward =>
        each after part guarded' (onward₁.trans (onward₂.trans onward))

theorem keeps_levelInherits (guarded : checker.Guarded) {level : TypeId}
    (clean : checker.types.Clean level) (id : FeatureId) :
    Keeps Guarded checker (levelInherits level id) fun after inherits =>
      checker = after ∧ (inherits = true → checker.types.Whole level) := by
  refine .weaken (.looks (.levelInherits level id) guarded) ?_
  rintro _ inherits _ _ ⟨rfl, run⟩
  refine ⟨rfl, fun holds => clean.whole_of_node guarded.types_canonical fun isError => ?_⟩
  have answered : (levelInherits level id).run checker = .ok false checker := by
    simp only [levelInherits, levelFeature?, EStateM.run_bind, run_node, isError]
    rfl
  rw [answered, holds] at run
  cases run

theorem keeps_replaceThisByLevelAt (guarded : checker.Guarded) {level : TypeId}
    (clean : checker.types.Clean level) (whole : checker.types.Whole ty) :
    Keeps Guarded checker (replaceThisByLevelAt level ty) fun after result =>
      ∀ settled ∈ result, after.types.Whole settled := by
  refine .look (run_readTypes checker _) ?_
  split
  · exact .pure guarded (by simpa using whole)
  · refine .look (run_node checker ty) ?_
    split
    · rename_i id _ _ _ _
      refine .bind (keeps_levelInherits guarded clean id) ?_
      rintro _ inherits _ _ ⟨rfl, levelWhole⟩
      cases inherits with
      | true => exact .pure guarded (by simpa using levelWhole rfl)
      | false => exact .pure guarded (by simp)
    · exact .pure guarded (by simp)

theorem mentionsThis_error (canonical : checker.types.Canonical) :
    checker.types.mentionsThis .error = false := by
  rw [TypeStore.mentionsThis, canonical.flags_exact _ canonical.error_exact.1,
    canonical.error_exact.2]
  rfl

/-- No error is buried by replacing enclosing instances. -/
theorem keeps_replaceThisWithin (depth : Nat) (guarded : checker.Guarded) {level : TypeId}
    (levelClean : checker.types.Clean level) (clean : checker.types.Clean ty) :
    Keeps Guarded checker (replaceThisWithin depth level ty) fun after => after.types.Clean := by
  induction depth generalizing checker level ty with
  | zero => exact .fail .depthExceeded _
  | succ depth ih =>
    refine .look (run_readTypes checker _) ?_
    cases mentions : checker.types.mentionsThis ty with
    | false => exact .pure guarded clean
    | true =>
      have whole : checker.types.Whole ty := by
        refine clean.whole ?_
        rintro rfl
        rw [mentionsThis_error guarded.types_canonical] at mentions
        cases mentions
      refine .bind (keeps_transformWithin _ guarded whole fun after part guarded' onward =>
        keeps_replaceThisByLevelAt guarded' (lasts_clean onward levelClean)) ?_
      intro after₁ replaced guarded₁ onward₁ replacedWhole
      refine .look (run_readTypes after₁ _) ?_
      have levelClean₁ := lasts_clean onward₁ levelClean
      unfold TypeStore.outer?
      cases layer : after₁.types.node level with
      | applied feature args outer isRef isThis =>
        cases outer with
        | none => exact .pure guarded₁ (.inr replacedWhole)
        | some around =>
          have levelWhole := levelClean₁.whole_of_node guarded₁.types_canonical
            (by simp [layer])
          refine ih guarded₁ (.inr ?_) (.inr replacedWhole)
          refine levelWhole.child guarded₁.types_canonical.toCoherent ?_
          rw [layer]
          exact List.mem_append_right _ (by simp)
      | _ => exact .pure guarded₁ (.inr replacedWhole)

/-! ## Formals -/

section

variable (guarded : checker.Guarded)

include guarded

theorem keeps_asRef (clean : checker.types.Clean ty) :
    Keeps Guarded checker (asRef ty) fun after => after.types.Clean := by
  have coherent := guarded.types_canonical.toCoherent
  rcases clean with rfl | whole
  · have denotes : checker.types.Denotes .error .error := .error guarded.types_canonical
    refine .weaken (.makes guarded
      (TypeStore.makes_asRef guarded.types_canonical denotes)) ?_
    intro after result guarded' onward resultDenotes
    have denotes' := denotes.of_extends coherent guarded'.types_canonical.toCoherent
      onward.types_extend
    exact .inl ((resultDenotes.inj denotes' guarded'.types_canonical.toCoherent).mpr rfl)
  · refine .weaken (.makes guarded
      (TypeStore.makes_asRef guarded.types_canonical whole.denotes)) ?_
    intro after result guarded' onward resultDenotes
    have tree := ((TypeStore.whole_iff coherent).mp whole).2
    exact .inr (.of_denotes guarded'.types_canonical.toCoherent resultDenotes tree.asRef)

theorem keeps_ensureNotOpen (ty : TypeId) :
    Keeps Guarded checker (ensureNotOpen ty) fun _ _ => True := by
  refine .bind (.looks (.formalOf? ty) guarded) ?_
  rintro _ formal _ _ ⟨rfl, _⟩
  cases formal with
  | none => exact .pure guarded trivial
  | some formal =>
    dsimp only
    split
    · exact .pure guarded trivial
    · refine .bind (.display guarded ty) ?_
      rintro _ text _ _ rfl
      refine .bind (.report guarded _ _) ?_
      intro after _ guarded' _ _
      exact .pure guarded' trivial

theorem keeps_actualFor (actualsClean : ∀ actual ∈ actuals, checker.types.Clean actual)
    (id : FormalId) :
    Keeps Guarded checker (actualFor actuals id) fun after => after.types.Clean := by
  unfold actualFor
  cases present : actuals[id.index]? with
  | some actual => exact .pure guarded (actualsClean actual (List.mem_of_getElem? present))
  | none =>
    refine .bind (.expect guarded _ _) ?_
    intro after _ guarded' _ _
    exact .pure guarded' (.inl rfl)

theorem keeps_substituteFormal (owner : FeatureId)
    (actualsClean : ∀ actual ∈ actuals, checker.types.Clean actual) (clean : checker.types.Clean ty)
    (id : FormalId) (boxed : Bool) :
    Keeps Guarded checker (substituteFormal owner actuals ty id boxed) fun after =>
      after.types.Clean := by
  unfold substituteFormal
  split
  · exact .pure guarded clean
  · refine .bind (keeps_ensureNotOpen guarded ty) ?_
    intro after₁ isClosed guarded₁ onward₁ _
    cases isClosed with
    | false => exact .pure guarded₁ (.inl rfl)
    | true =>
      refine .bind (keeps_actualFor guarded₁
        (fun actual member => lasts_clean onward₁ (actualsClean actual member)) id) ?_
      intro after₂ actual guarded₂ _ actualClean
      cases boxed with
      | false => exact .pure guarded₂ actualClean
      | true => exact keeps_asRef guarded₂ actualClean

end

/-! ## One step -/

def Substituter.KeepsClean (substitute : Substituter) : Prop :=
  ∀ {checker : Checker} (owner : FeatureId) {actuals : List TypeId} {target : TypeId},
    checker.Guarded → (∀ actual ∈ actuals, checker.types.Clean actual) →
      checker.types.Clean target →
        Keeps Guarded checker (substitute owner actuals target) fun after => after.types.Clean

section

variable {substitute : Substituter} (keeps : substitute.KeepsClean)

include keeps

section

variable {list : List TypeId} (owner : FeatureId) (guarded : checker.Guarded)
  (actualsClean : ∀ actual ∈ actuals, checker.types.Clean actual)
  (clean : ∀ ty ∈ list, checker.types.Clean ty)

include owner guarded actualsClean clean

theorem keeps_substituteEach :
    Keeps Guarded checker (substituteEach substitute owner actuals list) fun after results =>
      ∀ result ∈ results, after.types.Clean result := by
  induction list generalizing checker with
  | nil => exact .pure guarded (by simp)
  | cons ty rest ih =>
    obtain ⟨tyClean, restClean⟩ := List.forall_mem_cons.mp clean
    refine .bind (.looks (.trailingOpen? owner ty rest) guarded) ?_
    rintro _ position _ _ ⟨rfl, _⟩
    cases position with
    | some position =>
      exact .pure guarded fun actual member =>
        actualsClean actual (List.mem_of_mem_drop member)
    | none =>
      refine .bind (keeps owner guarded actualsClean tyClean) ?_
      intro after₁ first guarded₁ onward₁ firstClean
      refine .bind (ih guarded₁
        (fun actual member => lasts_clean onward₁ (actualsClean actual member))
        fun ty member => lasts_clean onward₁ (restClean ty member)) ?_
      intro after₂ others guarded₂ onward₂ othersClean
      exact .pure guarded₂
        (List.forall_mem_cons.mpr ⟨lasts_clean onward₂ firstClean, othersClean⟩)

theorem keeps_substituteListBy :
    Keeps Guarded checker (substituteListBy substitute owner actuals list) fun after results =>
      ∀ result ∈ results, after.types.Clean result := by
  refine .bind (.feature guarded owner) ?_
  rintro _ declared _ _ ⟨rfl, _⟩
  refine .look (run_readTypes checker _) ?_
  split
  · exact .pure guarded actualsClean
  · exact keeps_substituteEach keeps owner guarded actualsClean clean

end

theorem keeps_seenFromWithin (depth : Nat) (guarded : checker.Guarded) {self : TypeId}
    (selfClean : checker.types.Clean self) (clean : checker.types.Clean ty) :
    Keeps Guarded checker (seenFromWithin substitute depth self ty) fun after =>
      after.types.Clean := by
  induction depth generalizing checker self ty with
  | zero => exact .fail .depthExceeded _
  | succ depth ih =>
    refine .bind (keeps_replaceThisWithin _ guarded selfClean clean) ?_
    intro after₁ replaced guarded₁ onward₁ replacedClean
    refine .look (run_node after₁ self) ?_
    cases layer : after₁.types.node self with
    | applied id args outer isRef isThis =>
      have selfWhole := (lasts_clean onward₁ selfClean).whole_of_node
        guarded₁.types_canonical (by simp [layer])
      have partClean : ∀ part ∈ (after₁.types.node self).children, after₁.types.Clean part :=
        fun part member => .inr (selfWhole.child guarded₁.types_canonical.toCoherent member)
      rw [layer] at partClean
      have argsClean : ∀ arg ∈ args, after₁.types.Clean arg :=
        fun arg member => partClean arg (List.mem_append_left _ member)
      refine .bind (.feature guarded₁ id) ?_
      rintro _ declared _ _ ⟨rfl, _⟩
      split
      · exact .pure guarded₁ replacedClean
      · cases outer with
        | none => exact keeps id guarded₁ argsClean replacedClean
        | some around =>
          refine .bind (ih guarded₁
            (partClean around (List.mem_append_right _ (by simp))) replacedClean) ?_
          intro after₂ seen guarded₂ onward₂ seenClean
          exact keeps id guarded₂
            (fun arg member => lasts_clean onward₂ (argsClean arg member)) seenClean
    | _ => exact .pure guarded₁ replacedClean

variable (guarded : checker.Guarded)

include guarded

theorem keeps_settleArgs (ty : TypeId) {args : List TypeId}
    (clean : ∀ arg ∈ args, checker.types.Clean arg) :
    Keeps Guarded checker (settleArgs substitute ty args) fun after results =>
      ∀ result ∈ results, after.types.Clean result := by
  refine .bind (.looks (.isMetatype ty) guarded) ?_
  rintro _ isMetatype _ _ ⟨rfl, _⟩
  split
  · cases args with
    | nil => exact .pure guarded (by simp)
    | cons self rest =>
      obtain ⟨selfClean, restClean⟩ := List.forall_mem_cons.mp clean
      refine .bind (.mapM lasts_clean guarded fun after part member guarded' onward => ?_) ?_
      · split
        · exact .pure guarded' (lasts_clean onward (restClean part member))
        · exact keeps_seenFromWithin keeps _ guarded' (lasts_clean onward selfClean)
            (lasts_clean onward (restClean part member))
      intro after others guarded' onward othersClean
      exact .pure guarded'
        (List.forall_mem_cons.mpr ⟨lasts_clean onward selfClean, othersClean⟩)
  · exact .pure guarded clean

theorem keeps_substituteParts (owner : FeatureId)
    (actualsClean : ∀ actual ∈ actuals, checker.types.Clean actual) (target : TypeId)
    (clean : checker.types.Clean ty) {feature : FeatureId} {args : List TypeId}
    {outer : Option TypeId} {isRef isThis : Bool}
    (layer : checker.types.node ty = .applied feature args outer isRef isThis) :
    Keeps Guarded checker (substituteParts substitute owner actuals target ty args outer)
      fun after => after.types.Clean := by
  have whole := clean.whole_of_node guarded.types_canonical (by simp [layer])
  have partClean : ∀ part ∈ (checker.types.node ty).children, checker.types.Clean part :=
    fun part member => .inr (whole.child guarded.types_canonical.toCoherent member)
  rw [layer] at partClean
  refine .bind (keeps_substituteListBy keeps owner guarded actualsClean
    fun arg member => partClean arg (List.mem_append_left _ member)) ?_
  intro after₁ newArgs guarded₁ onward₁ newArgsClean
  refine .bind (.optionMapM guarded₁ fun around present => keeps owner guarded₁
    (fun actual member => lasts_clean onward₁ (actualsClean actual member))
    (lasts_clean onward₁
      (partClean around (List.mem_append_right _ (Option.mem_toList.mpr present))))) ?_
  intro after₂ newOuter guarded₂ onward₂ newOuterClean
  refine .bind (keeps_settleArgs keeps guarded₂ ty
    fun arg member => lasts_clean onward₂ (newArgsClean arg member)) ?_
  intro after₃ settled guarded₃ onward₃ settledClean
  have onward := onward₁.trans (onward₂.trans onward₃)
  split
  · exact .pure guarded₃ (.inr (lasts_whole onward whole))
  · split
    · refine .bind (.record guarded₃ _) ?_
      intro after₄ _ guarded₄ _ _
      exact .pure guarded₄ (.inl rfl)
    · -- No part became the error type, so all of them are whole.
      rename_i typed
      obtain ⟨outerTyped, argsTyped⟩ := not_or.mp typed
      refine .weaken (keeps_rebuild guarded₃ (onward.types_extend.holds whole.1)
        ((onward.types_extend.node_eq whole.1).trans layer) ?_ ?_) fun _ _ _ _ => .inr
      · intro arg member
        refine (settledClean arg member).whole ?_
        rintro rfl
        exact argsTyped member
      · intro around present
        refine (lasts_clean onward₃ (newOuterClean around present)).whole ?_
        rintro rfl
        exact outerTyped present

theorem keeps_parents {owner : FeatureId} {declared : Feature}
    (found : checker.features.get owner = .ok declared) (clean : checker.types.Clean target) :
    Keeps Guarded checker
      (declared.parents.foldlM (fun ty parent => substitute parent.ancestor parent.actuals ty)
        target) fun after => after.types.Clean := by
  refine .foldlM guarded clean ?_
  intro after ty parent member guarded' onward tyClean
  exact keeps parent.ancestor guarded' (fun actual present => lasts_clean onward
    (guarded.actuals_clean owner declared found parent member actual present)) tyClean

/-- One step buries no error if the substitutions that it calls for bury none. -/
theorem keeps_substituteStep (owner : FeatureId)
    (actualsClean : ∀ actual ∈ actuals, checker.types.Clean actual)
    (clean : checker.types.Clean target) :
    Keeps Guarded checker (substituteStep substitute owner actuals target) fun after =>
      after.types.Clean := by
  refine .bind (.feature guarded owner) ?_
  rintro _ declared _ _ ⟨rfl, found⟩
  refine .bind (.record guarded _) ?_
  intro after₁ _ guarded₁ onward₁ _
  have found₁ : after₁.features.get owner = .ok declared := by
    rw [onward₁.features_eq, found]
  refine .bind (keeps_parents keeps guarded₁ found₁ (lasts_clean onward₁ clean)) ?_
  intro after₂ ty guarded₂ onward₂ tyClean
  have actualsClean₂ : ∀ actual ∈ actuals, after₂.types.Clean actual :=
    fun actual member => lasts_clean (onward₁.trans onward₂) (actualsClean actual member)
  refine .look (run_node after₂ ty) ?_
  cases layer : after₂.types.node ty with
  | formal id boxed => exact keeps_substituteFormal guarded₂ owner actualsClean₂ tyClean id boxed
  | applied feature args outer isRef isThis =>
    exact keeps_substituteParts keeps guarded₂ owner actualsClean₂ target tyClean layer
  | _ => exact .pure guarded₂ tyClean

end

/-! ## Remembered results -/

theorem keeps_recallByOwner (guarded : checker.Guarded) (on : checker.options.memoize = true)
    (key : SubstitutionKey) (targetClean : checker.types.Clean key.target)
    (actualsClean : ∀ actual ∈ key.actuals, checker.types.Clean actual) :
    Keeps Guarded checker (recallByOwner key) fun after known =>
      ∀ result ∈ known, after.types.Clean result := by
  intro known after run
  rw [run_recallByOwner] at run
  obtain ⟨rfl, rfl⟩ := EStateM.Result.ok.inj run
  refine ⟨enduring_guarded.grow guarded guarded.types_canonical (.refl _) rfl rfl
    (Memo.consult_entries _ _) rfl, ⟨.refl _, rfl, rfl⟩, ?_⟩
  intro result present
  exact (guarded.memos_clean on).byOwner_clean key result present targetClean actualsClean

theorem keeps_recallViaType (guarded : checker.Guarded) (on : checker.options.memoize = true)
    (key : ViewKey) (targetClean : checker.types.Clean key.target)
    (viewClean : checker.ViewClean key.source) :
    Keeps Guarded checker (recallViaType key) fun after known =>
      ∀ result ∈ known, after.types.Clean result := by
  intro known after run
  rw [run_recallViaType] at run
  obtain ⟨rfl, rfl⟩ := EStateM.Result.ok.inj run
  refine ⟨enduring_guarded.grow guarded guarded.types_canonical (.refl _) rfl rfl rfl
    (Memo.consult_entries _ _), ⟨.refl _, rfl, rfl⟩, ?_⟩
  intro result present
  exact (guarded.memos_clean on).viaType_clean key result present targetClean viewClean

theorem MemosClean.rememberByOwner (memosClean : checker.MemosClean) (key : SubstitutionKey)
    (targetHeld : checker.types.Holds key.target)
    (actualsHeld : ∀ actual ∈ key.actuals, checker.types.Holds actual)
    (clean : checker.types.Clean key.target →
      (∀ actual ∈ key.actuals, checker.types.Clean actual) → checker.types.Clean result) :
    MemosClean { checker with byOwner := checker.byOwner.remember key result } := by
  refine ⟨?_, ?_, memosClean.viaType_held, memosClean.viaType_clean⟩
  · intro key' result' found
    rcases Memo.remember_cases _ found with ⟨same, rfl⟩ | old
    · rw [← SubstitutionKey.eq_of_compare same]
      exact ⟨targetHeld, actualsHeld⟩
    · exact memosClean.byOwner_held key' result' old
  · intro key' result' found
    rcases Memo.remember_cases _ found with ⟨same, rfl⟩ | old
    · rw [← SubstitutionKey.eq_of_compare same]
      exact clean
    · exact memosClean.byOwner_clean key' result' old

theorem MemosClean.rememberViaType (memosClean : checker.MemosClean) (key : ViewKey)
    (sourceHeld : checker.types.Holds key.source) (targetHeld : checker.types.Holds key.target)
    (clean : checker.types.Clean key.target → checker.ViewClean key.source →
      checker.types.Clean result) :
    MemosClean { checker with viaType := checker.viaType.remember key result } := by
  refine ⟨memosClean.byOwner_held, memosClean.byOwner_clean, ?_, ?_⟩
  · intro key' result' found
    rcases Memo.remember_cases _ found with ⟨same, rfl⟩ | old
    · rw [← ViewKey.eq_of_compare same]
      exact ⟨sourceHeld, targetHeld⟩
    · exact memosClean.viaType_held key' result' old
  · intro key' result' found
    rcases Memo.remember_cases _ found with ⟨same, rfl⟩ | old
    · rw [← ViewKey.eq_of_compare same]
      exact clean
    · exact memosClean.viaType_clean key' result' old

theorem keeps_rememberByOwner (guarded : checker.Guarded) (key : SubstitutionKey)
    (targetHeld : checker.types.Holds key.target)
    (actualsHeld : ∀ actual ∈ key.actuals, checker.types.Holds actual)
    (clean : checker.types.Clean result) :
    Keeps Guarded checker (rememberByOwner key result) fun _ _ => True := by
  intro _ after run
  obtain ⟨_, rfl⟩ := EStateM.Result.ok.inj run
  refine ⟨⟨⟨guarded.types_canonical, guarded.features_wellFormed⟩, guarded.actuals_clean,
    fun on => ?_⟩, ⟨.refl _, rfl, rfl⟩, trivial⟩
  exact (guarded.memos_clean on).rememberByOwner key targetHeld actualsHeld fun _ _ => clean

theorem keeps_rememberViaType (guarded : checker.Guarded) (key : ViewKey)
    (sourceHeld : checker.types.Holds key.source) (targetHeld : checker.types.Holds key.target)
    (clean : checker.types.Clean result) :
    Keeps Guarded checker (rememberViaType key result) fun _ _ => True := by
  intro _ after run
  obtain ⟨_, rfl⟩ := EStateM.Result.ok.inj run
  refine ⟨⟨⟨guarded.types_canonical, guarded.features_wellFormed⟩, guarded.actuals_clean,
    fun on => ?_⟩, ⟨.refl _, rfl, rfl⟩, trivial⟩
  exact (guarded.memos_clean on).rememberViaType key sourceHeld targetHeld fun _ _ => clean

theorem keeps_memoized {known : CheckM (Option TypeId)} {remember : TypeId → CheckM Unit}
    {compute : CheckM TypeId}
    (recalled : checker.options.memoize = true → Keeps Guarded checker known fun after found =>
      ∀ result ∈ found, after.types.Clean result)
    (computed : ∀ after, after.Guarded → checker.Onward after →
      Keeps Guarded after compute fun after => after.types.Clean)
    (remembered : ∀ after result, after.Guarded → checker.Onward after →
      after.types.Clean result → Keeps Guarded after (remember result) fun _ _ => True)
    (guarded : checker.Guarded) :
    Keeps Guarded checker (memoized known remember compute) fun after => after.types.Clean := by
  cases flag : checker.options.memoize with
  | false => exact .congr (run_memoized_off flag) (computed checker guarded (.refl _))
  | true =>
    refine .congr (run_memoized_on flag) (.bind (recalled flag) ?_)
    intro after₁ found guarded₁ onward₁ foundClean
    cases found with
    | some result => exact .pure guarded₁ (foundClean result rfl)
    | none =>
      refine .bind (computed after₁ guarded₁ onward₁) ?_
      intro after₂ result guarded₂ onward₂ resultClean
      refine .bind (remembered after₂ result guarded₂ (onward₁.trans onward₂) resultClean) ?_
      intro after₃ _ guarded₃ onward₃ _
      exact .pure guarded₃ (lasts_clean onward₃ resultClean)

/-! ## Substitution -/

/-- No error is buried by a substitution, recalled or worked out anew. -/
theorem substituteWithin_keepsClean (depth : Nat) :
    Substituter.KeepsClean (substituteWithin depth) := by
  induction depth with
  | zero =>
    intro checker owner actuals target _ _ _
    exact .fail .depthExceeded _
  | succ depth ih =>
    intro checker owner actuals target guarded actualsClean clean
    refine .bind (.looks (.actualsMatch owner actuals) guarded) ?_
    rintro _ fits _ _ ⟨rfl, _⟩
    refine .bind (.expect guarded _ fits) ?_
    intro after₁ _ guarded₁ onward₁ _
    have canonical := guarded₁.types_canonical
    have actualsClean₁ : ∀ actual ∈ actuals, after₁.types.Clean actual :=
      fun actual member => lasts_clean onward₁ (actualsClean actual member)
    have clean₁ := lasts_clean onward₁ clean
    refine .look (run_readTypes after₁ _) ?_
    split
    · exact .pure guarded₁ clean₁
    · refine keeps_memoized
        (fun on => keeps_recallByOwner guarded₁ on _ clean₁ actualsClean₁) ?_ ?_ guarded₁
      · intro after guarded' onward
        exact keeps_substituteStep ih guarded' owner
          (fun actual member => lasts_clean onward (actualsClean₁ actual member))
          (lasts_clean onward clean₁)
      · intro after result guarded' onward resultClean
        exact keeps_rememberByOwner guarded' _
          (onward.types_extend.holds (clean₁.held canonical))
          (fun actual member =>
            onward.types_extend.holds ((actualsClean₁ actual member).held canonical)) resultClean

theorem keeps_viewStep {substitute : Substituter} (keeps : substitute.KeepsClean)
    {view : (source target : TypeId) → CheckM TypeId}
    (viewKeeps : ∀ {checker : Checker} {source target : TypeId}, checker.Guarded →
      checker.types.Holds source → checker.ViewClean source → checker.types.Clean target →
        Keeps Guarded checker (view source target) fun after => after.types.Clean)
    (guarded : checker.Guarded) (held : checker.types.Holds source)
    (viewClean : checker.ViewClean source) (clean : checker.types.Clean target) :
    Keeps Guarded checker (viewStep substitute view source target) fun after =>
      after.types.Clean := by
  have onwards : ∀ {next : TypeId}, LeadsTo checker.types checker.features source next →
      checker.types.Holds next ∧ checker.ViewClean next := by
    intro next leads
    refine ⟨(leads.of_develops guarded.toWellFormed (.refl _) (.refl _) held).2, ?_⟩
    exact fun ty path => viewClean ty (.head leads path)
  refine .look (run_node checker source) ?_
  cases layer : checker.types.node source with
  | formal id boxed =>
    refine .bind (.constraint? guarded id) ?_
    rintro _ constraint _ _ ⟨rfl, declared⟩
    cases constraint with
    | none => exact .pure guarded clean
    | some next =>
      dsimp only
      split
      · exact .pure guarded clean
      · obtain ⟨formal, present, rfl⟩ := declared next rfl
        obtain ⟨nextHeld, nextClean⟩ := onwards (.constraint layer present)
        exact viewKeeps guarded nextHeld nextClean clean
  | applied feature args outer isRef isThis =>
    have argsClean : ∀ arg ∈ args, checker.types.Clean arg := by
      intro arg member
      refine viewClean source .refl arg ?_
      rw [TypeStore.args, layer]
      exact member
    refine .bind (keeps feature guarded argsClean clean) ?_
    intro after₁ result guarded₁ onward₁ resultClean
    cases outer with
    | none => exact .pure guarded₁ resultClean
    | some around =>
      obtain ⟨aroundHeld, aroundClean⟩ := onwards (.outer layer)
      exact viewKeeps guarded₁ (onward₁.types_extend.holds aroundHeld)
        (aroundClean.onward guarded.toWellFormed onward₁ aroundHeld) resultClean
  | error => exact .pure guarded (.inl rfl)
  | _ => exact .pure guarded clean

/-- No error is buried by a view from a type that is clean all the way out. -/
theorem keeps_substituteViaWithin (depth : Nat) (guarded : checker.Guarded)
    (held : checker.types.Holds source) (viewClean : checker.ViewClean source)
    (clean : checker.types.Clean target) :
    Keeps Guarded checker (substituteViaWithin depth source target) fun after =>
      after.types.Clean := by
  induction depth generalizing checker source target with
  | zero => exact .fail .depthExceeded _
  | succ depth ih =>
    refine .look (run_readTypes checker _) ?_
    split
    · exact .pure guarded clean
    · refine keeps_memoized
        (fun on => keeps_recallViaType guarded on _ clean viewClean) ?_ ?_ guarded
      · intro after guarded' onward
        exact keeps_viewStep (substituteWithin_keepsClean depth)
          (fun guarded held => ih guarded held) guarded'
          (onward.types_extend.holds held) (viewClean.onward guarded.toWellFormed onward held)
          (lasts_clean onward clean)
      · intro after result guarded' onward resultClean
        exact keeps_rememberViaType guarded' _ (onward.types_extend.holds held)
          (onward.types_extend.holds (clean.held guarded.types_canonical)) resultClean

end FeatureTypes.Checker

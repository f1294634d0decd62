import FeatureTypes.Proofs.Substitution.Metatype

/-!
# Metatypes of substituted types

Substituting closed actuals in the metatype of a type gives the metatype of the
substituted type, unless formals are captured.
-/

namespace FeatureTypes

namespace FeatureTable

variable {table larger : FeatureTable}

theorem filling_of_grows (growth : table.Grows larger) {owner : FeatureId} {declared : Feature}
    (found : table.get owner = .ok declared) (actuals : List Ty) :
    larger.filling owner actuals = table.filling owner actuals := by
  obtain ⟨_, foundLarger⟩ := growth.get_eq owner declared found
  rw [filling_eq found, filling_eq foundLarger]
  rfl

section

variable (growth : table.Grows larger) {unfold unfold' : TypeId → Ty}
  (sameActuals : ∀ id declared, table.get id = .ok declared → ∀ parent ∈ declared.parents,
    parent.actuals.map unfold' = parent.actuals.map unfold)
  {owner feature : FeatureId} {ty : Ty} {args : List Ty} {declared : Feature}

include growth sameActuals

theorem Sees.of_grows {result : Ty} (sees : table.Sees unfold owner ty feature args result)
    (grounded : table.Grounded feature) (found : table.get feature = .ok declared) :
    larger.Sees unfold' owner ty feature args result := by
  induction sees generalizing declared with
  | stranger args unrelated =>
    exact .stranger args fun inherits =>
      unrelated (grounded.inherits_of_grows growth found inherits).1
  | owner args => exact .of_fill_eq (by rw [filling_of_grows growth found])
  | @heir feature heir earlier later parent seen args foundHeir parentsEq unrelated _ covered ih =>
    have above : ∀ other ∈ heir.parents, table.Grounded other.ancestor ∧
        ∃ declared, table.get other.ancestor = .ok declared := by
      intro other member
      obtain ⟨declared, found, _⟩ := grounded.accepted feature heir .refl foundHeir other member
      exact ⟨grounded.of_inherits (.single ⟨heir, foundHeir, other, member, rfl⟩), declared, found⟩
    obtain ⟨_, foundLarger⟩ := growth.get_eq feature heir foundHeir
    rw [← filling_of_grows growth foundHeir]
    rw [parentsEq, List.forall_mem_append, List.forall_mem_cons] at above
    obtain ⟨aboveEarlier, ⟨parentGrounded, _, foundParent⟩, _⟩ := above
    refine .heir args foundLarger parentsEq (fun other member inherits => ?_) ?_
      (covered.imp (fun _ => .of_grows growth) fun _ => .of_grows growth)
    · obtain ⟨otherGrounded, _, foundOther⟩ := aboveEarlier other member
      exact unrelated other member (otherGrounded.inherits_of_grows growth foundOther inherits).1
    · rw [sameActuals feature heir foundHeir parent (by simp [parentsEq])]
      exact ih parentGrounded foundParent

theorem Uncaptured.of_grows (found : table.get owner = .ok declared)
    (uncaptured : table.Uncaptured unfold owner ty feature args) :
    larger.Uncaptured unfold' owner ty feature args := by
  rcases uncaptured with isUniverse | ⟨accepts, uncaptured⟩
  · exact Or.inl isUniverse
  · refine Or.inr ⟨accepts.of_grows growth, ?_⟩
    have ⟨_, foundFeature, _⟩ := accepts
    rcases uncaptured with parentless | closed | ⟨grounded, sees⟩
    · exact Or.inl fun ancestor hasParent =>
        parentless ancestor (.of_grows growth found hasParent)
    · exact Or.inr (Or.inl closed)
    · exact Or.inr (Or.inr ⟨grounded.of_grows growth foundFeature,
        sees.of_grows growth sameActuals grounded foundFeature⟩)

end

theorem HasMetatype.fill {filling : Filling} (closing : ∀ actual ∈ filling.actuals, actual.Closed)
    {ty : Ty} (hasMetatype : table.HasMetatype ty) {features : FeatureId → Prop}
    (settled : ty.Over filling.Settles features) (idle : ty.mentionsThis = false) :
    table.HasMetatype (filling.fill ty) := by
  induction hasMetatype with
  | outermost args outer isRef isThis =>
    rw [Filling.fill_applied_of_settles closing settled idle]
    exact .outermost _ _ isRef isThis
  | companion isCompanion args _ isRef isThis fromOuter =>
    rw [Filling.fill_applied_of_settles closing settled idle]
    obtain ⟨_, _, outerSettled⟩ := Ty.over_applied_iff.mp settled
    obtain ⟨_, _, outerIdle⟩ := Ty.mentionsThis_applied_iff.mp idle
    refine .companion isCompanion _ (fun result isResult => ?_) isRef isThis
    obtain ⟨around, present, rfl⟩ := Option.map_eq_some_iff.mp isResult
    exact fromOuter around present (outerSettled around present) (outerIdle around present)

end FeatureTable

namespace Checker

open Filter

/-- Closes `taken`, a metatype of `target`, and takes the metatype of `target` closed. -/
def metatypeBothWays (owner : FeatureId) (actuals : List TypeId) (taken target : TypeId) :
    CheckM (TypeId × TypeId) := do
  let substituted ← substitute owner actuals taken
  let closed ← substitute owner actuals target
  let direct ← metatype closed
  return (substituted, direct)

theorem realizes_metatypeBothWays {start origin checker : Checker}
    (lawful : start.features.Lawful) (resumes : start.Resumes (fun _ => True) origin checker)
    {owner : FeatureId} {takenId targetId : TypeId} {actualIds : List TypeId}
    {taken target closed : Ty} {actuals : List Ty}
    (actualsDenote : List.Forall₂ checker.types.Denotes actualIds actuals)
    (takenDenotes : checker.types.Denotes takenId taken)
    (targetDenotes : checker.types.Denotes targetId target)
    (settledTaken : start.smoothWithin (fun _ => True) checker.options.depthLimit owner actuals
      taken = some (start.features.metatype closed))
    (settled : start.smoothWithin (fun _ => True) checker.options.depthLimit owner actuals target =
      some closed) (hasMetatype : start.features.HasMetatype closed) :
    Realizes (.smooth start (fun _ => True) origin) checker
      (metatypeBothWays owner actualIds takenId targetId) (some (start.features.metatype closed))
      fun after results value =>
        after.types.Denotes results.1 value ∧ after.types.Denotes results.2 value := by
  have substitutes := realizes_substitute owner resumes actualsDenote takenDenotes
  rw [settledTaken] at substitutes
  refine .follow substitutes ?_
  intro after₁ substituted resumes₁ onward₁ substitutedDenotes
  have substitutes := realizes_substitute owner resumes₁
    (resumes.denotesAll resumes₁.toObeys onward₁ actualsDenote)
    (resumes.denotes resumes₁.toObeys onward₁ targetDenotes)
  rw [onward₁.options_eq, settled] at substitutes
  refine .follow substitutes ?_
  intro after₂ closedId resumes₂ onward₂ closedDenotes
  refine .follow (realizes_metatypeWithin lawful resumes₂ (Nat.lt_succ_self _) closedDenotes
    hasMetatype) ?_
  intro after₃ direct resumes₃ onward₃ directDenotes
  exact .pure resumes₃ ⟨resumes₁.denotes resumes₃.toObeys (onward₂.trans onward₃)
    substitutedDenotes, directDenotes⟩

/-- Unless formals are captured, closed actuals can be substituted before the metatype is taken
or afterwards. -/
theorem substitute_metatype
    {start : Checker} (prepared : start.Prepared) {owner : FeatureId}
    (grounded : start.features.Grounded owner)
    (notOpen : ∀ formal ∈ start.features.formalsOf owner, formal.isOpen = false)
    {target : TypeId} {actuals : List TypeId}
    (held : ∀ ty ∈ target :: actuals, start.types.Holds ty)
    (accepts : start.features.Accepts owner actuals.length)
    (closing : ∀ actual ∈ actuals, (start.types.tree actual).Closed)
    (covered : (start.types.tree target).Over (start.features.Owns owner)
      start.features.DeclaresPlain)
    (idle : (start.types.tree target).mentionsThis = false)
    (nests : (start.types.tree target).Nests
      (start.features.Uncaptured start.types.tree owner)) :
    ∃ taken created, (metatype target).run start = .ok taken created ∧
      ∃ enough, ∀ later : Checker, later.types = created.types →
        later.features = created.features → later.Faithful → enough ≤ later.options.depthLimit →
          ∃ result after, (metatypeBothWays owner actuals taken target).run later =
            .ok (result, result) after := by
  rw [List.forall_mem_cons] at held
  obtain ⟨targetHeld, actualsHeld⟩ := held
  have growing : start.GrowsLawfully start := ⟨.refl start, prepared.wellFormed, prepared.lawful⟩
  have plain := nests.chain.of_over covered
  obtain ⟨taken, created, run⟩ := prepared.finishes_metatypeWithin growing
    (Nat.lt_succ_self target.index) ⟨targetHeld, rfl⟩ plain
  obtain ⟨growing', _, hasMetatype, takenDenotes⟩ :=
    growing.ensures_metatypeWithin _ ⟨targetHeld, rfl⟩ plain taken created run
  -- The features in question have not changed, and numbers stand for the same types.
  have growth := growing'.grows.features_grow
  have canonical := growing'.wellFormed.types_canonical
  have carry : ∀ {id : TypeId}, start.types.Holds id →
      created.types.Denotes id (start.types.tree id) := fun held =>
    TypeStore.Denotes.of_extends ⟨held, rfl⟩ prepared.wellFormed.types_canonical.toCoherent
      canonical.toCoherent growing'.grows.types_extend
  obtain ⟨declared, found, fits⟩ := accepts
  rw [FeatureTable.formalsOf_eq found] at notOpen
  obtain ⟨_, foundLater⟩ := growth.get_eq owner declared found
  have fitsTrees : declared.accepts (actuals.map start.types.tree).length = true := by
    rwa [List.length_map]
  have groundedLater := grounded.of_grows growth found
  have coveredLater : (start.types.tree target).Over (created.features.Owns owner)
      created.features.DeclaresPlain :=
    covered.imp (fun _ => .of_grows growth) fun _ => .of_grows growth
  have sameActuals : ∀ id declared, start.features.get id = .ok declared →
      ∀ parent ∈ declared.parents,
        parent.actuals.map created.types.tree = parent.actuals.map start.types.tree :=
    fun id declared found parent member => List.map_congr_left fun actual isActual =>
      (carry ((prepared.wellFormed.features_wellFormed id declared found).actuals_held parent
        member actual isActual)).2
  have closing : ∀ actual ∈ actuals.map start.types.tree, actual.Closed :=
    List.forall_mem_map.mpr closing
  have settledTaken := smooth_metatype foundLater fitsTrees notOpen closing growing'.wellFormed
    growing'.lawful groundedLater
    (nests.mono fun _ _ _ uncaptured => uncaptured.of_grows growth sameActuals found)
    coveredLater idle
  have settled := smooth_fill growing'.wellFormed groundedLater foundLater (fun _ => trivial)
    (growing'.lawful.numbered owner _ foundLater) fitsTrees
    (coveredLater.mono fun id owned => FeatureTable.Owns.fillable owned)
  obtain ⟨enough, runs⟩ := eventually_atTop.mp
    ((eventually_settled (.call (owner, _, _)) settledTaken).and
      (eventually_settled (.call (owner, _, _)) settled))
  refine ⟨taken, created, run, enough, fun later typesEq featuresEq faithful deep => ?_⟩
  have runs := runs _ deep
  obtain ⟨⟨substituted, direct⟩, after, run', resumes, _, substitutedDenotes, directDenotes⟩ :=
    (realizes_metatypeBothWays growing'.lawful
      (Resumes.of_faithful typesEq featuresEq faithful _)
      (typesEq ▸ List.forall₂_map_right_iff.mpr (List.forall₂_same.mpr fun actual member =>
        carry (actualsHeld actual member)))
      (typesEq ▸ takenDenotes) (typesEq ▸ carry targetHeld) runs.1 runs.2
      (hasMetatype.fill closing
        (coveredLater.mono fun id => settles_of_owns foundLater fitsTrees notOpen) idle)).exists_run
  obtain rfl : substituted = direct :=
    (substitutedDenotes.inj directDenotes resumes.types_canonical.toCoherent).mpr rfl
  exact ⟨substituted, after, run'⟩

def pairOperations : List Operation :=
  [.declare (.feature "any" none true), .construct (.instantiate ⟨1⟩ []),
    .declare (.feature "Type" none true), .declare (.typeRoot ⟨2⟩),
    .declare (.feature "i32" none false), .construct (.instantiate ⟨3⟩ []),
    .declare (.feature "pair" none false), .declare (.formal ⟨4⟩ "A" ⟨3⟩ false {}),
    .declare (.formal ⟨4⟩ "B" ⟨3⟩ false {}), .declare (.parent ⟨4⟩ ⟨1⟩ [])]

def lidOperations : List Operation :=
  [.declare (.feature "lid" (some ⟨4⟩) false), .declare (.formal ⟨5⟩ "Y" ⟨3⟩ false {}),
    .declare (.parent ⟨5⟩ ⟨1⟩ []), .construct (.applied ⟨4⟩ [⟨5⟩, ⟨6⟩] none false),
    .construct (.applied ⟨5⟩ [⟨6⟩] (some ⟨8⟩) false)]

/-- The target applies the lid to a formal of the pair, inside the pair applied to its own
formals. -/
theorem substitute_metatype_lid :
    let start := afterAll (pairOperations ++ lidOperations) {}
    start.features.Accepts ⟨4⟩ 2 ∧
      (start.types.tree ⟨9⟩).Nests (start.features.Uncaptured start.types.tree ⟨4⟩) ∧
      ∃ taken created, (metatype ⟨9⟩).run start = .ok taken created ∧
        ∃ enough, ∀ depthLimit ≥ enough, ∃ result after,
          (metatypeBothWays ⟨4⟩ [⟨3⟩, ⟨4⟩] taken ⟨9⟩).run
            (created.unmemoized.limited depthLimit) = .ok (result, result) after := by
  intro start
  have registers : Registers {} start := Registers.refl.steps (by decide +kernel)
  have reachable : start.Reachable := (Reachable.initial {} {}).steps (by decide +kernel)
  have rooted : start.features.typeRoot = some ⟨2⟩ := by decide +kernel
  have rootAccepts : start.features.Accepts ⟨2⟩ 0 := by decide +kernel
  have prepared : start.Prepared :=
    { wellFormed := reachable.sound.toWellFormed
      lawful := registers.lawful FeatureTable.initial_lawful
      root_declared := by
        intro root isRoot
        obtain rfl := Option.some.inj (rooted.symm.trans isRoot)
        obtain ⟨declared, found, _⟩ := rootAccepts
        exact ⟨declared, found⟩
      constraint_shiftable := FeatureTable.forall_declared (by decide +kernel) }
  have grounded : ∀ id, start.features.Grounded id :=
    FeatureTable.grounded_of_index_lt (FeatureTable.forall_declared (by decide +kernel))
  have lidUnrelated : ¬ start.features.Inherits ⟨5⟩ ⟨4⟩ := by
    intro inherits
    have inside : (⟨4⟩ : FeatureId) ∈ [⟨1⟩, ⟨5⟩] := FeatureTable.mem_of_inherits
      (FeatureTable.forall_declared (by decide +kernel)) (by decide) inherits
    revert inside
    decide
  have acceptsLid : start.features.Accepts ⟨5⟩ 1 := by decide +kernel
  have accepts : start.features.Accepts ⟨4⟩ [(⟨3⟩ : TypeId), ⟨4⟩].length := by decide +kernel
  have treeEq : start.types.tree ⟨9⟩ = .applied ⟨5⟩ [.formal ⟨⟨4⟩, 1⟩ false]
      (some (.applied ⟨4⟩ [.formal ⟨⟨4⟩, 0⟩ false, .formal ⟨⟨4⟩, 1⟩ false] none false false))
      false false := by
    decide +kernel
  -- The formals of the pair give way to themselves.
  have fixed : ∀ slot ∈ [.formal ⟨⟨4⟩, 0⟩ false, .formal ⟨⟨4⟩, 1⟩ false],
      start.features.Uncaptured start.types.tree ⟨4⟩ slot ⟨4⟩
        [.formal ⟨⟨4⟩, 0⟩ false, .formal ⟨⟨4⟩, 1⟩ false] := by
    intro slot member
    refine Or.inr ⟨accepts, Or.inr (Or.inr ⟨grounded _, .of_fill_eq ?_⟩)⟩
    revert slot
    decide +kernel
  have nests : (start.types.tree ⟨9⟩).Nests
      (start.features.Uncaptured start.types.tree ⟨4⟩) := by
    rw [treeEq]
    refine .applied (fun slot member => .applied ?_ ?_) ?_
    · exact Or.inr ⟨acceptsLid, Or.inr (Or.inr ⟨grounded _, .stranger _ lidUnrelated⟩)⟩
    · rintro _ ⟨⟩
      exact .applied (fixed slot (List.mem_cons_of_mem _ member)) (by simp)
    · rintro _ ⟨⟩
      exact .applied (fun slot member => .applied (fixed slot member) (by simp)) (by simp)
  have notOpen : ∀ formal ∈ start.features.formalsOf ⟨4⟩, formal.isOpen = false := by
    decide +kernel
  have held : ∀ ty ∈ [⟨9⟩, ⟨3⟩, ⟨4⟩], start.types.Holds ty := by decide +kernel
  have closing : ∀ actual ∈ [⟨3⟩, ⟨4⟩], (start.types.tree actual).Closed := by decide +kernel
  have covered : (start.types.tree ⟨9⟩).Over (start.features.Owns ⟨4⟩)
      start.features.DeclaresPlain := by
    decide +kernel
  have idle : (start.types.tree ⟨9⟩).mentionsThis = false := by decide +kernel
  clear_value start
  obtain ⟨taken, created, run, enough, runs⟩ := substitute_metatype prepared (grounded ⟨4⟩) notOpen
    held accepts closing covered idle nests
  have growing : start.GrowsLawfully start := ⟨.refl start, prepared.wellFormed, prepared.lawful⟩
  obtain ⟨growing', _⟩ := growing.ensures_metatypeWithin _ ⟨held _ List.mem_cons_self, rfl⟩
    (nests.chain.of_over covered) taken created run
  exact ⟨accepts, nests, taken, created, run, enough, fun depthLimit =>
    runs (created.unmemoized.limited depthLimit) rfl rfl
      (growing'.wellFormed.faithful_unmemoized.limited depthLimit)⟩

/-- Formals are captured when the metatype of a pair with exchanged arguments is substituted:
in between, the arguments are seen from inside the pair. -/
theorem substitute_metatype_captured :
    let start := afterAll (pairOperations ++ [.construct (.applied ⟨4⟩ [⟨6⟩, ⟨5⟩] none false)]) {}
    start.Reachable ∧ start.features.Lawful ∧ (∀ id, start.features.Grounded id) ∧
      (∀ id declared, start.features.get id = .ok declared → ∀ formal ∈ declared.formals,
        formal.isOpen = false) ∧
      start.features.typeRoot = some ⟨2⟩ ∧ start.features.formalsOf ⟨2⟩ = [] ∧
      start.features.Accepts ⟨4⟩ 2 ∧ (∀ actual ∈ [⟨3⟩, ⟨4⟩], (start.types.tree actual).Closed) ∧
      (start.types.tree ⟨7⟩).Over (start.features.Owns ⟨4⟩) start.features.DeclaresPlain ∧
      (start.types.tree ⟨7⟩).mentionsThis = false ∧
      ((do
        let taken ← metatype ⟨7⟩
        metatypeBothWays ⟨4⟩ [⟨3⟩, ⟨4⟩] taken ⟨7⟩) : CheckM (TypeId × TypeId)).run' start =
          some (⟨13⟩, ⟨14⟩) := by
  intro start
  have registers : Registers {} start := Registers.refl.steps (by decide +kernel)
  exact ⟨(Reachable.initial {} {}).steps (by decide +kernel),
    registers.lawful FeatureTable.initial_lawful,
    FeatureTable.grounded_of_index_lt (FeatureTable.forall_declared (by decide +kernel)),
    FeatureTable.forall_declared (by decide +kernel), by decide +kernel, by decide +kernel,
    by decide +kernel, by decide +kernel, by decide +kernel, by decide +kernel, by decide +kernel⟩

end Checker

end FeatureTypes

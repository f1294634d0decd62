import FeatureTypes.Proofs.Substitution.Identity

/-!
# Lists of all formals

A list of arguments that consists of the formals of a feature gives way to the actuals as a
whole.  This only saves work.
-/

namespace FeatureTypes.Checker

open Filter

section

variable {start : Checker} {admits : Ty → Prop} {owner : FeatureId} {declared : Feature}
  (found : start.features.get owner = .ok declared) (wellFormed : start.WellFormed)
  (grounded : start.features.Grounded owner) (numbered : declared.Numbered owner)
  {actuals : List Ty} (accepts : declared.accepts actuals.length = true)

include found wellFormed grounded numbered accepts

theorem smooth_closed_formal {position : Nat} {formal : Formal}
    (present : declared.formals[position]? = some formal) (closed : formal.isOpen = false) :
    start.smooth admits owner actuals (.formal formal.id false) =
      some ((Filling.ofFeature owner declared actuals).fill (.formal formal.id false)) := by
  have idEq := (numbered position formal present).1
  have bound := Feature.lt_of_accepts accepts present closed
  have owned : start.features.Owns owner formal.id := by
    rw [idEq]
    exact ⟨rfl, declared, found, (List.getElem?_eq_some_iff.mp present).choose⟩
  rw [smooth_formal wellFormed grounded found owned.fillable false accepts,
    formalUnder_of_closed found owned.1 (by rwa [idEq]) closed
      (by rw [idEq]; exact List.getElem?_eq_getElem bound)]
  rw [Filling.fill_own _ owned.1, Filling.single, idEq]
  simp [Filling.ofFeature, present, closed, List.getElem?_eq_getElem bound]

theorem substituteEach_formals :
    start.signature.substituteEach (start.smooth admits) owner actuals
      (declared.formals.map fun formal => .formal formal.id false) = some actuals := by
  rw [substituteEach_eq_fillList_of_suffix found, Filling.fillList_formals numbered accepts]
  intro ty rest suffix notTrailing
  obtain ⟨before, splits⟩ := suffix
  obtain ⟨formalsBefore, formals, formalsEq, rfl, atEnd⟩ := List.map_eq_append_iff.mp splits.symm
  obtain ⟨formal, formalsBehind, rfl, rfl, rfl⟩ := List.map_eq_cons_iff.mp atEnd
  have present : declared.formals[formalsBefore.length]? = some formal := by
    simp [formalsEq]
  obtain ⟨idEq, onlyLast⟩ := numbered _ formal present
  cases isOpen : formal.isOpen with
  | false => exact smooth_closed_formal found wellFormed grounded numbered accepts present isOpen
  | true =>
    -- An open formal stands last, so that it is spliced.
    have lengths := onlyLast isOpen
    have behind : formalsBehind = [] := by
      rw [formalsEq, List.length_append, List.length_cons] at lengths
      exact List.length_eq_zero_iff.mp (by omega)
    rw [behind, idEq, Filling.trailing?, List.map_nil, List.isEmpty_nil, if_pos rfl,
      Filling.openPosition?_ofFeature present, isOpen, if_pos rfl] at notTrailing
    cases notTrailing

end

/-- Nothing happened to the checker but that substitutions were worked out. -/
structure OnlySubstituted (checker after : Checker) : Prop extends checker.Untouched after where
  noted : ∃ events, after.journal.events = events ++ checker.journal.events ∧
    ∀ event ∈ events, ∃ target owner, event = .substituting target owner

theorem Resumes.onlySubstituted {start checker after : Checker}
    (resumes : start.Resumes (fun _ => False) checker after) (onward : checker.Onward after) :
    checker.OnlySubstituted after where
  types_eq := resumes.frozen fun _ => id
  features_eq := onward.features_eq
  options_eq := onward.options_eq
  reports_eq := (resumes.quiet id).1
  noted := (resumes.quiet id).2

theorem run_substituteListWithin_formals {checker : Checker} {owner : FeatureId}
    {declared : Feature} (found : checker.features.get owner = .ok declared)
    {list : List TypeId} (ownFormals : list.map checker.types.node =
      declared.formals.map fun formal => Node.formal formal.id false)
    (depth : Nat) (actuals : List TypeId) :
    (substituteListWithin depth owner actuals list).run checker = .ok actuals checker := by
  rw [substituteListWithin, substituteListBy]
  simp only [EStateM.run_bind, run_feature checker found, areFormals, run_readTypes, ownFormals,
    decide_true, if_true]
  rfl

/-- The formals of a feature give way to the actuals, as a whole or one by one. -/
theorem substituteEach_own_formals
    (start : Checker) (reachable : start.Reachable) (acyclic : start.features.Acyclic)
    (accepted : ∀ id declared, start.features.get id = .ok declared →
      ∀ parent ∈ declared.parents,
        start.features.Accepts parent.ancestor parent.actuals.length)
    {owner : FeatureId} {declared : Feature} (found : start.features.get owner = .ok declared)
    (actuals own : List TypeId) (held : ∀ ty ∈ actuals ++ own, start.types.Holds ty)
    (accepts : declared.accepts actuals.length = true)
    (ownFormals : own.map start.types.node =
      declared.formals.map fun formal => Node.formal formal.id false) :
    ∃ enough, ∀ depth ≥ enough, ∀ checker : Checker, checker.types = start.types →
      checker.features = start.features → checker.Faithful →
        (substituteListWithin depth owner actuals own).run checker = .ok actuals checker ∧
        ∃ after, (substituteEach (substituteWithin depth) owner actuals own).run checker =
          .ok actuals after ∧ checker.OnlySubstituted after := by
  have wellFormed := reachable.sound.toWellFormed
  have coherent := wellFormed.types_canonical.toCoherent
  have grounded : start.features.Grounded owner :=
    ⟨fun id _ => acyclic id, fun id declared _ => accepted id declared⟩
  rw [List.forall_mem_append] at held
  have actualsDenote : List.Forall₂ start.types.Denotes actuals (actuals.map start.types.tree) :=
    TypeStore.Denotes.forall₂_iff.mpr ⟨held.1, rfl⟩
  have ownDenote : List.Forall₂ start.types.Denotes own declared.formalTypes :=
    TypeStore.denote_formalTypes coherent held.2 ownFormals
  -- No types may be made, so nothing is reported either.
  have settled : start.signature.substituteEach (start.smooth fun _ => False) owner
      (actuals.map start.types.tree) declared.formalTypes = some (actuals.map start.types.tree) :=
    substituteEach_formals found wellFormed grounded
      (reachable.built.orderly.each owner declared found).numbered (by rwa [List.length_map])
  obtain ⟨enough, within⟩ := eventually_atTop.mp (eventually_settled
    (start.signature.finitary_substituteEach owner _ _) settled)
  refine ⟨enough, fun depth deep checker typesEq featuresEq faithful => ⟨?_, ?_⟩⟩
  · exact run_substituteListWithin_formals (featuresEq ▸ found) (typesEq ▸ ownFormals) depth actuals
  · have resumes := Resumes.of_faithful typesEq featuresEq faithful fun _ => False
    rw [← typesEq] at actualsDenote ownDenote coherent
    have realizes := realizes_substituteEach _ (serves_smooth depth) owner resumes actualsDenote
      ownDenote
    rw [typesEq, within depth deep] at realizes
    obtain ⟨results, after, run, resumes', onward, resultsDenote⟩ := realizes.exists_run
    have onlySubstituted := resumes'.onlySubstituted onward
    rw [onlySubstituted.types_eq] at resultsDenote
    rw [typesEq] at resultsDenote actualsDenote coherent
    obtain rfl := (TypeStore.Denotes.args_inj resultsDenote actualsDenote coherent).mpr rfl
    exact ⟨after, run, onlySubstituted⟩

/-- A row inherits from a tuple, and each has an open formal.  The row is given one actual only,
so that none is left for its open formal. -/
theorem substituteEach_own_formals_row :
    let start := afterAll
      [.declare (.feature "any" none true), .construct (.instantiate ⟨1⟩ []),
        .declare (.feature "tuple" none true), .declare (.formal ⟨2⟩ "T" ⟨3⟩ true {}),
        .declare (.feature "row" none true), .declare (.formal ⟨3⟩ "A" ⟨3⟩ false {}),
        .declare (.formal ⟨3⟩ "N" ⟨3⟩ true {}), .declare (.parent ⟨3⟩ ⟨2⟩ [⟨5⟩, ⟨6⟩])] {}
    start.options.memoize = true ∧ start.options.strict = true ∧
      start.types.node ⟨6⟩ = .formal ⟨⟨3⟩, 1⟩ false ∧
      start.features.OwnsOpen ⟨3⟩ ⟨⟨3⟩, 1⟩ ∧
      ∃ enough, ∀ depth ≥ enough,
        (substituteListWithin depth ⟨3⟩ [⟨3⟩] [⟨5⟩, ⟨6⟩]).run start = .ok [⟨3⟩] start ∧
        ∃ after, (substituteEach (substituteWithin depth) ⟨3⟩ [⟨3⟩] [⟨5⟩, ⟨6⟩]).run start =
          .ok [⟨3⟩] after ∧ start.OnlySubstituted after := by
  intro start
  have reachable : start.Reachable := (Reachable.initial {} {}).steps (by decide +kernel)
  have acyclic : start.features.Acyclic :=
    FeatureTable.acyclic_of_index_lt (FeatureTable.forall_declared (by decide +kernel))
  have listed : start.features.features[3]?.map (fun declared =>
      (declared.accepts 1, declared.formals.map fun formal => Node.formal formal.id false)) =
        some (true, [(⟨5⟩ : TypeId), ⟨6⟩].map start.types.node) := by decide +kernel
  obtain ⟨declared, present, listedEq⟩ := Option.map_eq_some_iff.mp listed
  obtain ⟨accepts, ownFormals⟩ := Prod.mk.inj listedEq
  obtain ⟨enough, runs⟩ := substituteEach_own_formals start reachable acyclic
    (FeatureTable.forall_declared (by decide +kernel)) (FeatureTable.get_eq_ok_iff.mpr present)
    [⟨3⟩] [⟨5⟩, ⟨6⟩] (by decide +kernel) accepts ownFormals.symm
  exact ⟨by decide +kernel, by decide +kernel, by decide +kernel, by decide +kernel, enough,
    fun depth deep => runs depth deep start rfl rfl (reachable.faithful (by decide +kernel))⟩

end FeatureTypes.Checker

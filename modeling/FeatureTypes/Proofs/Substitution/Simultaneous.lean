import FeatureTypes.Proofs.Store.Shifting
import FeatureTypes.Proofs.Substitution.Filled

/-!
# Substitution is simultaneous replacement

The depth that is needed depends on the types alone, so each statement holds for all large
depths.
-/

namespace FeatureTypes

/-- A substitution that can be carried out: the actuals fit and are no error types, and
the target is free of error types and has declared formals where they matter. -/
structure FeatureTable.Substitutable (table : FeatureTable) (owner : FeatureId)
    (actuals : List Ty) (target : Ty) : Prop where
  fits : table.Fits owner actuals.length
  actuals_typed : ∀ actual ∈ actuals, actual ≠ .error
  target_over : target.Over (table.Resolvable owner) table.Declares

theorem FeatureTable.Substitutable.pending {table : FeatureTable} {owner : FeatureId}
    {actuals : List Ty} {target : Ty} (substitutable : table.Substitutable owner actuals target) :
    target.Over (table.Pending owner []) table.Declares :=
  substitutable.target_over.mono fun _ resolvable => ⟨resolvable, by simp⟩

namespace Checker

variable {actuals : List Ty} {target : Ty} {owner : FeatureId}

open Filter
open FeatureTable (ownReplacement)

/-! ## The formals of one feature -/

theorem map_ownReplacement {formals : List Formal} {actuals : List Ty}
    (numbered : ∀ (position : Nat) (formal : Formal), formals[position]? = some formal →
      formal.id = ⟨owner, position⟩) (lengthEq : actuals.length = formals.length) :
    (formals.map fun formal => ownReplacement owner actuals formal.id) = actuals := by
  apply List.ext_getElem (by simp [lengthEq])
  intro position bound bound'
  have formalBound : position < formals.length := lengthEq ▸ bound'
  rw [List.getElem_map, numbered position _ (List.getElem?_eq_getElem formalBound),
    ownReplacement, if_pos rfl, List.getD_eq_getElem?_getD,
    List.getElem?_eq_getElem bound', Option.getD_some]

theorem replace_own_ne_error {table : FeatureTable} {done : List Parent} {actuals : List Ty}
    {ty : Ty} (fits : table.Fits owner actuals.length)
    (actualsTyped : ∀ actual ∈ actuals, actual ≠ .error)
    (covered : ty.Over (table.Pending owner done) table.Declares) :
    ty.replace (ownReplacement owner actuals) ≠ .error := by
  cases ty with
  | formal id boxed =>
    obtain ⟨resolvable, _⟩ := Ty.over_formal_iff.mp covered
    have typed : ownReplacement owner actuals id ≠ .error := by
      by_cases belongs : id.feature = owner
      · obtain ⟨actual, present, replaced⟩ :=
          FeatureTable.exists_actual fits belongs (resolvable (belongs ▸ .refl))
        rw [replaced]
        exact actualsTyped actual (List.mem_of_getElem? present)
      · simp [ownReplacement, belongs]
    cases boxed with
    | false => simpa using typed
    | true => simpa [Ty.replace] using typed
  | error => exact absurd rfl covered.ne_error
  | _ => simp [Ty.replace]

section

variable {start : Checker} (regular : start.features.Regular start.types.tree) {declared : Feature}
  (found : start.features.get owner = .ok declared)

include regular found

theorem accepts_of_fits {count : Nat} (fits : start.features.Fits owner count) :
    declared.accepts count = true := by
  obtain ⟨declared', found', rfl⟩ := fits
  obtain rfl := Except.ok.inj (found.symm.trans found')
  have closed : declared.endsOpen = false := by
    rw [Feature.endsOpen, Option.any_eq_false]
    intro formal last
    exact regular.formals_closed owner declared found formal (List.mem_of_getLast? last)
  simp [Feature.accepts, closed]

theorem substituteList_eq_map
    {call : (owner : FeatureId) → (actuals : List Ty) → (target : Ty) → Option Ty}
    (wellFormed : declared.WellFormed start.types owner)
    (fits : start.features.Fits owner actuals.length) {list : List Ty}
    (replaced : ∀ ty ∈ list, call owner actuals ty =
      some (ty.replace (ownReplacement owner actuals))) :
    start.signature.substituteList call owner actuals list =
      some (list.map (Ty.replace (ownReplacement owner actuals))) := by
  rw [substituteList_eq found]
  split
  next isFormals =>
    obtain ⟨declared', found', lengthEq⟩ := fits
    obtain rfl := Except.ok.inj (found.symm.trans found')
    rw [isFormals, List.map_map]
    exact congrArg some (map_ownReplacement wellFormed.formal_id lengthEq).symm
  next =>
    rw [substituteEach_eq_mapM found, mapM_eq_some_iff, List.forall₂_map_right_iff]
    · exact List.forall₂_same.mpr replaced
    · intro last _
      cases last with
      | formal id boxed =>
        refine if_neg fun isOpen => ?_
        obtain ⟨formal, present, isOpen⟩ := (Option.any_eq_true _ _).mp isOpen.2
        have closed := regular.formals_closed owner declared found formal
          (List.mem_of_getElem? present)
        simp [closed] at isOpen
      | _ => rfl

/-- With the formals of the ancestors out of the way, those of the feature are replaced. -/
theorem ownUnder_eq_replace (wellFormed : declared.WellFormed start.types owner)
    (fits : start.features.Fits owner actuals.length)
    (actualsTyped : ∀ actual ∈ actuals, actual ≠ .error) {ty : Ty}
    (covered : ty.Over (start.features.Pending owner declared.parents) start.features.Declares)
    {call : (owner : FeatureId) → (actuals : List Ty) → (target : Ty) → Option Ty}
    (replaced : ∀ part ∈ ty.children, call owner actuals part =
      some (part.replace (ownReplacement owner actuals))) :
    start.signature.ownUnder (start.demands (· ≠ .error)) call owner actuals ty =
      some (ty.replace (ownReplacement owner actuals)) := by
  cases ty with
  | formal id boxed =>
    rw [Signature.ownUnder, Ty.replace]
    by_cases belongs : id.feature = owner
    · have declares := (Ty.over_formal_iff.mp covered).1 (belongs ▸ .refl)
      obtain ⟨actual, isActual, actualEq⟩ := FeatureTable.exists_actual fits belongs declares
      obtain ⟨declared', found', bound⟩ := declares
      rw [belongs] at found'
      obtain rfl := Except.ok.inj (found.symm.trans found')
      have present := List.getElem?_eq_getElem bound
      have closed := regular.formals_closed owner declared found _ (List.getElem_mem bound)
      rw [formalUnder_of_closed found belongs present closed isActual, actualEq]
      have typed := actualsTyped actual (List.mem_of_getElem? isActual)
      cases boxed with
      | false => rfl
      | true => exact Demands.replace_of_admits (by simpa [demands] using typed) _
    · rw [Signature.formalUnder, if_pos belongs, ownReplacement, if_neg belongs]
      cases boxed <;> rfl
  | applied feature args outer isRef isThis =>
    have declares := (Ty.over_applied_iff.mp covered).1
    have plain : start.features.DeclaresPlain feature :=
      have found := FeatureTable.get_eq_ok_iff.mpr (Array.getElem?_eq_getElem declares)
      ⟨_, found, regular.not_companion feature _ found⟩
    have argsReplaced := substituteList_eq_map regular found wellFormed fits
      fun arg member => replaced arg (List.mem_append_left _ member)
    have outerReplaced : outer.mapM (call owner actuals) =
        some (outer.map (Ty.replace (ownReplacement owner actuals))) :=
      optionMapM_eq_some_map fun around present =>
        replaced around (List.mem_append_right _ (Option.mem_toList.mpr present))
    have typed : ∀ part ∈ args ++ outer.toList,
        part.replace (ownReplacement owner actuals) ≠ .error := fun part member =>
      replace_own_ne_error fits actualsTyped (covered.child member)
    rw [ownUnder_applied argsReplaced outerReplaced (argsUnder_of_plain plain _),
      Ty.replace_applied]
    have whole : Signature.rebuild (.applied feature args outer isRef isThis)
        (args.map (Ty.replace (ownReplacement owner actuals)))
        (outer.map (Ty.replace (ownReplacement owner actuals))) =
          .applied feature (args.map (Ty.replace (ownReplacement owner actuals)))
            (outer.map (Ty.replace (ownReplacement owner actuals))) isRef isThis := by
      rw [Signature.rebuild_eq_assemble covered.whole]
      refine if_neg ?_
      rintro (isError | member)
      · obtain ⟨around, present, isError⟩ := Option.map_eq_some_iff.mp isError
        exact typed around (List.mem_append_right _ (Option.mem_toList.mpr present)) isError
      · obtain ⟨arg, member, isError⟩ := List.mem_map.mp member
        exact typed arg (List.mem_append_left _ member) isError
    rw [whole]
    exact Demands.replace_of_admits (by simp [demands]) _
  | error => exact absurd rfl covered.ne_error
  | _ => rfl

end

/-! ## All features -/

section

variable {start : Checker} (wellFormed : start.WellFormed)
  (regular : start.features.Regular start.types.tree)

include wellFormed regular

theorem smooth_resolution (substitutable : start.features.Substitutable owner actuals target) :
    start.smooth (· ≠ .error) owner actuals target =
      some (target.replace (start.features.resolution start.types.tree owner actuals)) := by
  induction owner using regular.acyclic.induction generalizing actuals target with
  | step owner ih =>
    have ⟨declared, found, _⟩ := substitutable.fits
    have fits := accepts_of_fits regular found substitutable.fits
    have declaredWellFormed := wellFormed.features_wellFormed owner declared found
    -- The parents take turns, and each replaces the formals that it inherits.
    have fromParents : ∀ {done rest : List Parent} {ty : Ty}, declared.parents = done ++ rest →
        ty.Over (start.features.Pending owner done) start.features.Declares →
          rest.foldlM (fun ty parent => start.smooth (· ≠ .error) parent.ancestor
            (parent.actuals.map start.types.tree) ty) ty =
              some (start.features.through start.types.tree rest ty) := by
      intro done rest ty split covered
      induction rest generalizing done ty with
      | nil => rfl
      | cons parent rest restSmooth =>
        have member : parent ∈ declared.parents := by simp [split]
        have parentSubstitutable : start.features.Substitutable parent.ancestor
            (parent.actuals.map start.types.tree) ty := by
          refine ⟨?_, ?_, covered.mono fun id pending inherits => pending.1
            ((FeatureTable.inherits_iff found).mpr (.inr ⟨parent, member, inherits⟩))⟩
          · simpa using regular.actuals_fit owner declared found parent member
          · simpa using fun actual present =>
              (regular.actuals_over owner declared found parent member actual present).ne_error
        rw [List.foldlM_cons,
          ih parent.ancestor ⟨declared, found, parent, member, rfl⟩ parentSubstitutable]
        exact restSmooth (by simpa using split) (regular.over_pending_replace found split covered)
    -- Behind them, nothing is left but the formals of the feature itself.
    have ownSmooth : ∀ ty : Ty,
        ty.Over (start.features.Pending owner declared.parents) start.features.Declares →
          start.smooth (· ≠ .error) owner actuals ty =
            some (ty.replace (ownReplacement owner actuals)) := by
      intro ty covered
      induction ty using Ty.childrenInduction with
      | step ty childrenSmooth =>
        cases mentions : ty.mentionsFormal with
        | false =>
          rw [smooth_of_closed ⟨declared, found, fits⟩ mentions, Ty.replace_of_closed mentions]
        | true =>
          have through := fromParents (List.nil_append _).symm
            (covered.mono fun _ pending => ⟨pending.1, by simp⟩)
          rw [regular.through_of_done (fun _ member => member) covered] at through
          rw [smooth_of_open found fits mentions through]
          exact ownUnder_eq_replace regular found declaredWellFormed substitutable.fits
            substitutable.actuals_typed covered
            fun part member => childrenSmooth part member (covered.child member)
    cases mentions : target.mentionsFormal with
    | false =>
      rw [smooth_of_closed ⟨declared, found, fits⟩ mentions, Ty.replace_of_closed mentions]
    | true =>
      have covered := regular.over_through found (List.nil_append _).symm substitutable.pending
      rw [smooth_of_open found fits mentions
          (fromParents (List.nil_append _).symm substitutable.pending),
        ownUnder_eq_replace regular found declaredWellFormed substitutable.fits
          substitutable.actuals_typed covered fun part member =>
            ownSmooth part (covered.child member),
        ← regular.replace_own found substitutable.fits covered,
        regular.replace_through found (List.nil_append _).symm substitutable.fits
          substitutable.pending]

end

/-- Substitution replaces every formal at once by what it stands for, and reports
nothing. -/
theorem substitute_simultaneous
    (checker : Checker) (faithful : checker.Faithful)
    (regular : checker.features.Regular checker.types.tree)
    (owner : FeatureId) (actuals : List TypeId) (target : TypeId)
    (held : ∀ ty ∈ target :: actuals, checker.types.Holds ty)
    (substitutable : checker.features.Substitutable owner (actuals.map checker.types.tree)
      (checker.types.tree target)) :
    ∃ standsFor : FormalId → Ty,
      (∀ id, checker.features.Resolvable owner id →
        checker.features.Resolves checker.types.tree owner (actuals.map checker.types.tree) id
          (standsFor id)) ∧
      ∃ enough, ∀ depthLimit ≥ enough, ∃ result after,
        (substitute owner actuals target).run (checker.limited depthLimit) = .ok result after ∧
        after.types.Holds result ∧
        after.types.tree result = (checker.types.tree target).replace standsFor ∧
        after.reports = checker.reports ∧
        ∃ events, after.journal.events = events ++ checker.journal.events ∧
          ∀ event ∈ events, ∃ ty name, event = .substituting ty name := by
  rw [List.forall_mem_cons] at held
  refine ⟨checker.features.resolution checker.types.tree owner (actuals.map checker.types.tree),
    fun id => regular.resolves_resolution substitutable.fits, ?_⟩
  obtain ⟨enough, realizes⟩ := eventually_atTop.mp
    (eventually_substitute (smooth_resolution faithful.wellFormed regular substitutable))
  refine ⟨enough, fun depthLimit deep => ?_⟩
  obtain ⟨result, after, run, resumes', _, denotes⟩ := (realizes depthLimit deep
    (faithful.resumes depthLimit _) (TypeStore.Denotes.forall₂_iff.mpr ⟨held.2, rfl⟩)
    ⟨held.1, rfl⟩).exists_run
  have quiet := resumes'.quiet (· rfl)
  exact ⟨result, after, run, denotes.1, denotes.2, quiet⟩

/-- A feature with two ways to the formal of an ancestor, and a type that applies the
ancestor to that formal held through a reference. -/
def rangeOperations : List Operation :=
  [.declare (.feature "any" none true), .construct (.instantiate ⟨1⟩ []),
    .declare (.feature "list" none false), .declare (.formal ⟨2⟩ "T" ⟨3⟩ false {}),
    .declare (.feature "sorted" none true), .declare (.formal ⟨3⟩ "S" ⟨3⟩ false {}),
    .declare (.parent ⟨3⟩ ⟨2⟩ [⟨5⟩]),
    .declare (.feature "range" none true), .declare (.formal ⟨4⟩ "U" ⟨3⟩ false {}),
    .construct (.instantiate ⟨2⟩ [⟨7⟩]),
    .declare (.parent ⟨4⟩ ⟨3⟩ [⟨8⟩]), .declare (.parent ⟨4⟩ ⟨2⟩ [⟨7⟩]),
    .construct (.asRef ⟨4⟩), .construct (.instantiate ⟨2⟩ [⟨10⟩])]

theorem substitute_simultaneous_range :
    let checker := afterAll rangeOperations {}
    checker.options.memoize = true ∧ checker.features.Regular checker.types.tree ∧
      ∃ standsFor : FormalId → Ty,
        checker.features.Resolves checker.types.tree ⟨4⟩ [checker.types.tree ⟨3⟩] ⟨⟨2⟩, 0⟩
          (standsFor ⟨⟨2⟩, 0⟩) ∧
        ∃ enough, ∀ depthLimit ≥ enough, ∃ result after,
          (substitute ⟨4⟩ [⟨3⟩] ⟨11⟩).run (checker.limited depthLimit) = .ok result after ∧
          after.types.tree result = (checker.types.tree ⟨11⟩).replace standsFor := by
  intro checker
  have reachable : checker.Reachable := (Reachable.initial {} {}).steps (by decide +kernel)
  have regular : checker.features.Regular checker.types.tree := by
    refine ⟨FeatureTable.acyclic_of_index_lt ?_, ?_, ?_, ?_, ?_⟩
    all_goals exact FeatureTable.forall_declared (by decide +kernel)
  have declares : (checker.types.tree ⟨11⟩).Over checker.features.DeclaresFormal
      checker.features.Declares := by decide +kernel
  have substitutable : checker.features.Substitutable ⟨4⟩ [checker.types.tree ⟨3⟩]
      (checker.types.tree ⟨11⟩) :=
    ⟨by decide +kernel, by decide +kernel, declares.mono fun _ declared _ => declared⟩
  obtain ⟨standsFor, stands, enough, runs⟩ := substitute_simultaneous checker
    (reachable.faithful (by decide +kernel)) regular ⟨4⟩ [⟨3⟩] ⟨11⟩ (by decide +kernel)
    substitutable
  have declared : checker.features.DeclaresFormal ⟨⟨2⟩, 0⟩ := by decide +kernel
  refine ⟨by decide +kernel, regular, standsFor, stands ⟨⟨2⟩, 0⟩ fun _ => declared, enough, ?_⟩
  intro depthLimit deep
  obtain ⟨result, after, run, _, treeEq, _⟩ := runs depthLimit deep
  exact ⟨result, after, run, treeEq⟩

end Checker

end FeatureTypes

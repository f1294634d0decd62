import FeatureTypes.Proofs.Substitution.Simultaneous

/-!
# Two substitutions in a row

Substituting the formals of one feature and then those of another gives what the
first substitution gives alone, once the second has been carried out in its
actuals.
-/

namespace FeatureTypes

/-! ## Replaced actuals -/

namespace FeatureTable

variable {table : FeatureTable} {unfold : TypeId → Ty}

/-- The formal is declared, by `owner` or one of its ancestors. -/
def Reaches (table : FeatureTable) (owner : FeatureId) (id : FormalId) : Prop :=
  table.Inherits owner id.feature ∧ table.DeclaresFormal id

section

variable (regular : table.Regular unfold) {owner : FeatureId} {actuals : List Ty}
  (fits : table.Fits owner actuals.length)

theorem ownReplacement_map {id : FormalId} (belongs : id.feature = owner)
    (declaresFormal : table.DeclaresFormal id) (fits : table.Fits owner actuals.length)
    (replacement : FormalId → Ty) :
    ownReplacement owner (actuals.map (Ty.replace replacement)) id =
      (ownReplacement owner actuals id).replace replacement := by
  obtain ⟨actual, present, replaced⟩ := exists_actual fits belongs declaresFormal
  rw [replaced, ownReplacement, if_pos belongs, List.getD_eq_getElem?_getD, List.getElem?_map,
    present, Option.map_some, Option.getD_some]

include regular fits

theorem Resolves.replaceActuals {id : FormalId} {ty : Ty}
    (resolves : table.Resolves unfold owner actuals id ty)
    (inherits : table.Inherits owner id.feature) (replacement : FormalId → Ty) :
    table.Resolves unfold owner (actuals.map (Ty.replace replacement)) id
      (ty.replace replacement) := by
  cases resolves with
  | own belongs present => exact .own belongs (by rw [List.getElem?_map, present, Option.map_some])
  | unrelated unrelated => exact absurd inherits unrelated
  | @inherited _ declared _ _ parent _ _ ty found split earlier inheritsAbove above =>
    have member : parent ∈ declared.parents := by simp [split]
    have overHeir := above.over_formals regular
      (by simpa using regular.actuals_fit owner declared found parent member) inheritsAbove
      (by simpa using regular.actuals_over owner declared found parent member)
    have replaced : (ty.replace (ownReplacement owner actuals)).replace replacement =
        ty.replace (ownReplacement owner (actuals.map (Ty.replace replacement))) := by
      rw [Ty.replace_replace]
      apply Ty.replace_congr overHeir
      rintro formal ⟨belongs, declaresFormal⟩
      exact (ownReplacement_map belongs declaresFormal fits replacement).symm
    rw [replaced]
    exact .inherited found split earlier inheritsAbove above

variable {ty : Ty}

theorem Regular.replace_resolution (covered : ty.Over (table.Reaches owner) table.Declares)
    (replacement : FormalId → Ty) :
    (ty.replace (table.resolution unfold owner actuals)).replace replacement =
      ty.replace (table.resolution unfold owner (actuals.map (Ty.replace replacement))) := by
  rw [Ty.replace_replace]
  apply Ty.replace_congr covered
  intro id reaches
  have resolves := regular.resolves_resolution fits fun _ => reaches.2
  exact (resolution_eq regular.acyclic
    (resolves.replaceActuals regular fits reaches.1 replacement)).symm

theorem Regular.over_replace_resolution (covered : ty.Over (table.Reaches owner) table.Declares)
    {formals : FormalId → Prop}
    (actualsOver : ∀ actual ∈ actuals, actual.Over formals table.Declares) :
    (ty.replace (table.resolution unfold owner actuals)).Over formals table.Declares := by
  apply Ty.Over.replace
  apply covered.mono
  intro id reaches
  have resolves := regular.resolves_resolution fits fun _ => reaches.2
  exact resolves.over_formals regular fits reaches.1 actualsOver

theorem Regular.replace_resolution_ne_error (typed : ∀ actual ∈ actuals, actual ≠ .error)
    (covered : ty.Over (table.Resolvable owner) table.Declares) :
    ty.replace (table.resolution unfold owner actuals) ≠ .error := by
  have ⟨declared, found, _⟩ := fits
  have pending := (Substitutable.mk fits typed covered).pending
  have coveredThrough := regular.over_through found (List.nil_append _).symm pending
  rw [← regular.replace_through found (List.nil_append _).symm fits pending,
    regular.replace_own found fits coveredThrough]
  exact Checker.replace_own_ne_error fits typed coveredThrough

end

/-- Two substitutions that can be carried out in a row: the target is made of formals that
the first one replaces, and the second one can be carried out in the actuals of the
first. -/
structure Composable (table : FeatureTable) (first second : FeatureId)
    (firstActuals secondActuals : List Ty) (target : Ty) : Prop where
  first_fits : table.Fits first firstActuals.length
  second_fits : table.Fits second secondActuals.length
  target_over : target.Over (table.Reaches first) table.Declares
  firstActuals_over : ∀ actual ∈ firstActuals,
    actual.Over (table.Resolvable second) table.Declares
  secondActuals_typed : ∀ actual ∈ secondActuals, actual ≠ .error

namespace Composable

variable {first second : FeatureId} {firstActuals secondActuals : List Ty} {target : Ty}
  (composable : table.Composable first second firstActuals secondActuals target)

include composable

theorem once : table.Substitutable first firstActuals target where
  fits := composable.first_fits
  actuals_typed actual member := (composable.firstActuals_over actual member).ne_error
  target_over := composable.target_over.mono fun _ reaches _ => reaches.2

theorem inActual {actual : Ty} (member : actual ∈ firstActuals) :
    table.Substitutable second secondActuals actual where
  fits := composable.second_fits
  actuals_typed := composable.secondActuals_typed
  target_over := composable.firstActuals_over actual member

variable (regular : table.Regular unfold)

include regular

theorem twice :
    table.Substitutable second secondActuals
      (target.replace (table.resolution unfold first firstActuals)) where
  fits := composable.second_fits
  actuals_typed := composable.secondActuals_typed
  target_over := regular.over_replace_resolution composable.first_fits composable.target_over
    composable.firstActuals_over

theorem atOnce :
    table.Substitutable first
      (firstActuals.map (Ty.replace (table.resolution unfold second secondActuals))) target where
  fits := by simpa using composable.first_fits
  actuals_typed := List.forall_mem_map.mpr fun actual member =>
    regular.replace_resolution_ne_error composable.second_fits composable.secondActuals_typed
      (composable.firstActuals_over actual member)
  target_over := composable.once.target_over

end Composable

end FeatureTable

/-! ## The runs -/

namespace Checker

open Filter

/-- The results of two substitutions in a row, and of the first with the second carried
out in its actuals. -/
def substituteBothWays (first second : FeatureId) (firstActuals secondActuals : List TypeId)
    (target : TypeId) : CheckM (TypeId × TypeId) := do
  let once ← substitute first firstActuals target
  let twice ← substitute second secondActuals once
  let actuals ← firstActuals.mapM (substitute second secondActuals)
  let atOnce ← substitute first actuals target
  return (twice, atOnce)

/-- The types that `substituteBothWays` comes to, given how formals are substituted. -/
def substitutedBothWays
    (call : (owner : FeatureId) → (actuals : List Ty) → (target : Ty) → Option Ty)
    (first second : FeatureId) (firstActuals secondActuals : List Ty) (target : Ty) :
    Option (Ty × Ty) := do
  let once ← call first firstActuals target
  let twice ← call second secondActuals once
  let actuals ← firstActuals.mapM (call second secondActuals)
  let atOnce ← call first actuals target
  return (twice, atOnce)

theorem finitary_substitutedBothWays (first second : FeatureId)
    (firstActuals secondActuals : List Ty) (target : Ty) :
    Finitary fun call => substitutedBothWays
      (fun owner actuals target => call (owner, actuals, target)) first second firstActuals
      secondActuals target :=
  .bind (.call _) fun _ => .bind (.call _) fun _ => .bind (.mapM (fun _ => .call _) _) fun _ =>
    .bind (.call _) fun _ => .const _

/-- Both ways lead to the same type. -/
theorem smooth_substitutedBothWays {start : Checker} (wellFormed : start.WellFormed)
    (regular : start.features.Regular start.types.tree) {first second : FeatureId}
    {firstActuals secondActuals : List Ty} {target : Ty}
    (composable : start.features.Composable first second firstActuals secondActuals target) :
    ∃ result, substitutedBothWays (start.smooth (· ≠ .error)) first second firstActuals
      secondActuals target = some (result, result) := by
  have actualsReplaced := mapM_eq_some_map fun actual (member : actual ∈ firstActuals) =>
    smooth_resolution wellFormed regular (composable.inActual member)
  refine ⟨target.replace (start.features.resolution start.types.tree first (firstActuals.map
    (Ty.replace (start.features.resolution start.types.tree second secondActuals)))), ?_⟩
  simp only [substitutedBothWays, smooth_resolution wellFormed regular composable.once,
    smooth_resolution wellFormed regular (composable.twice regular), actualsReplaced,
    smooth_resolution wellFormed regular (composable.atOnce regular), Option.bind_eq_bind,
    Option.bind_some, regular.replace_resolution composable.first_fits composable.target_over]
  rfl

section

variable {start origin checker : Checker} {admits : Ty → Prop}

theorem realizes_substituteBothWays (resumes : start.Resumes admits origin checker)
    (first second : FeatureId) {firstIds secondIds : List TypeId} {targetId : TypeId}
    {firstActuals secondActuals : List Ty} {target : Ty}
    (firstDenote : List.Forall₂ checker.types.Denotes firstIds firstActuals)
    (secondDenote : List.Forall₂ checker.types.Denotes secondIds secondActuals)
    (targetDenotes : checker.types.Denotes targetId target) :
    Realizes (.smooth start admits origin) checker
      (substituteBothWays first second firstIds secondIds targetId)
      (substitutedBothWays (start.smoothWithin admits checker.options.depthLimit) first second
        firstActuals secondActuals target) fun after results values =>
          after.types.Denotes results.1 values.1 ∧ after.types.Denotes results.2 values.2 := by
  have carry := fun {after : Checker} (resumes' : start.Resumes admits origin after) onward =>
    resumes.denotesAll resumes'.toObeys onward secondDenote
  refine .bind (realizes_substitute first resumes firstDenote targetDenotes) ?_
  intro after₁ once once' resumes₁ onward₁ onceDenotes
  rw [← onward₁.options_eq]
  refine .bind (realizes_substitute second resumes₁ (carry resumes₁ onward₁) onceDenotes) ?_
  intro after₂ twice twice' resumes₂ onward₂ twiceDenotes
  have onward := onward₁.trans onward₂
  refine .bind (.mapM Realizes.lasting_denotes Realizes.lasting_denotes resumes₂
    (resumes.denotesAll resumes₂.toObeys onward firstDenote) ?_) ?_
  · intro after id _ ty resumes' onward' denotes
    have realizes := realizes_substitute second resumes' (carry resumes' (onward.trans onward'))
      denotes
    rwa [onward'.options_eq, onward₂.options_eq] at realizes
  intro after₃ actuals actuals' resumes₃ onward₃ actualsDenote
  rw [← onward₂.options_eq, ← onward₃.options_eq]
  refine .bind (realizes_substitute first resumes₃ actualsDenote
    (resumes.denotes resumes₃.toObeys (onward.trans onward₃) targetDenotes)) ?_
  intro after₄ atOnce atOnce' resumes₄ onward₄ atOnceDenotes
  exact .pure resumes₄
    ⟨resumes₂.denotes resumes₄.toObeys (onward₃.trans onward₄) twiceDenotes, atOnceDenotes⟩

end

/-- Two substitutions in a row give the same type as the first one alone, with the second
carried out in its actuals. -/
theorem substitute_substitute
    (checker : Checker) (faithful : checker.Faithful)
    (regular : checker.features.Regular checker.types.tree)
    (first second : FeatureId) (firstActuals secondActuals : List TypeId) (target : TypeId)
    (held : ∀ ty ∈ target :: (firstActuals ++ secondActuals), checker.types.Holds ty)
    (composable : checker.features.Composable first second (firstActuals.map checker.types.tree)
      (secondActuals.map checker.types.tree) (checker.types.tree target)) :
    ∃ enough, ∀ depthLimit ≥ enough, ∃ result after,
      (substituteBothWays first second firstActuals secondActuals target).run
        (checker.limited depthLimit) = .ok (result, result) after := by
  rw [List.forall_mem_cons, List.forall_mem_append] at held
  obtain ⟨targetHeld, firstHeld, secondHeld⟩ := held
  obtain ⟨result, settled⟩ := smooth_substitutedBothWays faithful.wellFormed regular composable
  obtain ⟨enough, settled⟩ := eventually_atTop.mp
    (eventually_settled (finitary_substitutedBothWays _ _ _ _ _) settled)
  refine ⟨enough, fun depthLimit deep => ?_⟩
  have realizes := realizes_substituteBothWays
    (faithful.resumes depthLimit (· ≠ .error)) first second
    (TypeStore.Denotes.forall₂_iff.mpr ⟨firstHeld, rfl⟩)
    (TypeStore.Denotes.forall₂_iff.mpr ⟨secondHeld, rfl⟩) ⟨targetHeld, rfl⟩
  simp only [limited] at realizes
  rw [settled depthLimit deep] at realizes
  obtain ⟨⟨twice, atOnce⟩, after, run, resumes, _, twiceDenotes, atOnceDenotes⟩ :=
    realizes.exists_run
  obtain rfl : twice = atOnce :=
    (twiceDenotes.inj atOnceDenotes resumes.types_canonical.toCoherent).mpr rfl
  exact ⟨twice, after, run⟩

/-- The first substitution goes through two parents to the formal of an ancestor, and its
actual mentions a formal that the second one replaces. -/
theorem substitute_substitute_range :
    let checker := afterAll rangeOperations {}
    checker.options.memoize = true ∧ checker.features.Regular checker.types.tree ∧
      checker.features.Composable ⟨4⟩ ⟨3⟩ [checker.types.tree ⟨6⟩] [checker.types.tree ⟨3⟩]
        (checker.types.tree ⟨11⟩) ∧
      ∃ enough, ∀ depthLimit ≥ enough, ∃ result after,
        (substituteBothWays ⟨4⟩ ⟨3⟩ [⟨6⟩] [⟨3⟩] ⟨11⟩).run (checker.limited depthLimit) =
          .ok (result, result) after := by
  intro checker
  have reachable : checker.Reachable := (Reachable.initial {} {}).steps (by decide +kernel)
  have regular : checker.features.Regular checker.types.tree := by
    refine ⟨FeatureTable.acyclic_of_index_lt ?_, ?_, ?_, ?_, ?_⟩
    all_goals exact FeatureTable.forall_declared (by decide +kernel)
  have targetOver : (checker.types.tree ⟨11⟩).Over (· = ⟨⟨2⟩, 0⟩) checker.features.Declares := by
    decide +kernel
  have reaches : checker.features.Reaches ⟨4⟩ ⟨⟨2⟩, 0⟩ :=
    ⟨.single (by decide +kernel), by decide +kernel⟩
  have actualOver : (checker.types.tree ⟨6⟩).Over checker.features.DeclaresFormal
      checker.features.Declares := by decide +kernel
  have composable : checker.features.Composable ⟨4⟩ ⟨3⟩ [checker.types.tree ⟨6⟩]
      [checker.types.tree ⟨3⟩] (checker.types.tree ⟨11⟩) := by
    refine ⟨by decide +kernel, by decide +kernel, ?_, ?_, by decide +kernel⟩
    · exact targetOver.mono fun id same => same ▸ reaches
    · intro actual member
      rw [List.mem_singleton.mp member]
      exact actualOver.mono fun _ declared _ => declared
  exact ⟨by decide +kernel, regular, composable, substitute_substitute checker
    (reachable.faithful (by decide +kernel)) regular ⟨4⟩ ⟨3⟩ [⟨6⟩] [⟨3⟩] ⟨11⟩ (by decide +kernel)
    composable⟩

end Checker

end FeatureTypes

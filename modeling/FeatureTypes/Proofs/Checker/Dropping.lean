import FeatureTypes.Proofs.Checker.Creation
import FeatureTypes.Proofs.Meaning.Formals

/-!
# Dropping the formals for the type at hand

Every companion has a formal for the type at hand.  Dropping these formals comes to a
result for every type whose formals are declared.  What is left mentions such a formal
again just where the type at hand is one of a feature inside a companion.
-/

namespace FeatureTypes

/-! ## Companions have formals for the type at hand -/

namespace FeatureTable

variable {table table' : FeatureTable}

theorem ThisFormals.update (thisFormals : table.ThisFormals) {id : FeatureId} {new : Feature}
    (update : table.Update table' id new) (leads : new.origin ≠ none → new.formals ≠ []) :
    table'.ThisFormals := by
  intro companion isCompanion
  by_cases isUpdated : companion = id
  · subst isUpdated
    rw [originOf_eq update.get_self] at isCompanion
    rw [formalsOf_eq update.get_self]
    exact leads isCompanion
  · rw [originOf, update.get_other companion isUpdated] at isCompanion
    rw [formalsOf, update.get_other companion isUpdated]
    exact thisFormals companion isCompanion

theorem ThisFormals.gain (thisFormals : table.ThisFormals) (gains : table.Gains table') :
    table'.ThisFormals := by
  cases gains with
  | feature declared =>
    obtain ⟨_, _, _, update⟩ := declare_update declared
    exact thisFormals.update update fun isCompanion => absurd rfl isCompanion
  | formal added =>
    obtain ⟨_, _, _, update⟩ := addFormal_update added
    exact thisFormals.update update fun _ => by simp
  | edit modified develops formalsEq =>
    obtain ⟨declared, found, update⟩ := modify_update modified
    apply thisFormals.update update
    rw [formalsEq, (Feature.seat_eq_iff.mp (develops declared).seat_eq).2.2.2.2,
      ← originOf_eq found, ← formalsOf_eq found]
    exact thisFormals _
  | typeRoot root => exact thisFormals

theorem initial_thisFormals : FeatureTable.initial.ThisFormals := by
  have noOrigin : ∀ id declared, FeatureTable.initial.get id = .ok declared →
      declared.origin = none :=
    forall_declared (by decide)
  intro companion isCompanion
  obtain ⟨origin, isOrigin⟩ := Option.ne_none_iff_exists'.mp isCompanion
  obtain ⟨declared, found, originEq⟩ := exists_of_originOf isOrigin
  rw [noOrigin companion declared found] at originEq
  cases originEq

theorem ThisFormals.develop (thisFormals : table.ThisFormals) (lawful : table.Lawful)
    (lawful' : table'.Lawful) (develops : table.Develops table')
    (mirrorsNew : Checker.MirrorsNew table table') : table'.ThisFormals := by
  intro companion isCompanion
  obtain ⟨origin, isOrigin⟩ := Option.ne_none_iff_exists'.mp isCompanion
  have linked := (lawful'.companion_iff origin companion).mpr isOrigin
  cases before : table.companionOf origin with
  | none =>
    obtain ⟨_, mirror, _, found, this, copies, formalsEq, _⟩ :=
      mirrorsNew origin companion before linked
    rw [formalsOf_eq found, formalsEq]
    exact List.cons_ne_nil this copies
  | some companion' =>
    obtain rfl := Option.some.inj
      (linked.symm.trans (develops.companionOf_eq lawful lawful' before))
    have isOrigin' := (lawful.companion_iff origin companion).mp before
    obtain ⟨declared, found, originEq⟩ := exists_of_originOf isOrigin'
    obtain ⟨declared', found', developed⟩ := develops companion declared found
    obtain ⟨this, others, formalsEq⟩ := List.exists_cons_of_ne_nil
      (thisFormals companion (isOrigin' ▸ Option.some_ne_none origin))
    rw [formalsOf_eq found] at formalsEq
    have kept := developed.formals_kept 0 this (by rw [formalsEq]; rfl)
    rw [formalsOf_eq found']
    intro missing
    rw [missing] at kept
    cases kept

end FeatureTable

namespace Checker

variable {checker : Checker}

theorem Registers.thisFormals {start : Checker} (registers : start.Registers checker)
    (lawful : start.features.Lawful) (thisFormals : start.features.ThisFormals) :
    checker.features.ThisFormals := by
  induction registers with
  | refl => exact thisFormals
  | declare _ declaration run ih =>
    exact ih.gain (ensures_declaration declaration _ _ run)
  | companion registers id run ih =>
    have provides := ensures_companionWithin (registers.lawful lawful) _ id _ _ run
    exact ih.develop (registers.lawful lawful) provides.lawful provides.develops
      provides.mirrors_new
  | elsewhere _ featuresEq ih =>
    rw [featuresEq]
    exact ih

/-! ## Dropping comes to a result -/

theorem dropThisFormals_ne_none (wellFormed : checker.WellFormed)
    (lawful : checker.features.Lawful) {ty : Ty} (declares : checker.features.DeclaresFormals ty) :
    checker.signature.dropThisFormals ty ≠ none := by
  rw [Signature.dropThisFormals_eq_mapFormals]
  refine Ty.mapFormals_ne_none fun id boxed occurs => ?_
  rw [Signature.dropThisFormal]
  split
  · exact Option.some_ne_none _
  obtain ⟨declared, found⟩ := declares id boxed occurs
  rw [checker.follows_signature.feature_eq _ _ found]
  simp only [Feature.outline, Option.bind_eq_bind, Option.bind_some]
  cases isOrigin : declared.origin with
  | none => exact Option.some_ne_none _
  | some origin =>
    have linked := (lawful.companion_iff origin id.feature).mpr
      ((FeatureTable.originOf_eq found).trans isOrigin)
    obtain ⟨around, foundAround, _⟩ := FeatureTable.exists_of_companionOf linked
    have nested : checker.unmemoized.features.Nested := lawful.nested
    obtain ⟨_, _, run⟩ := finishes_selfType nested ⟨around, foundAround⟩
    obtain ⟨_, _, self, selfEq, _⟩ := (realizes_selfType (.free _) Demands.liberal_lax
      (checker.follows_signature.obeys_unmemoized wellFormed) origin).finds _ _ run
    simp [selfEq]

theorem run_dropThisFormals {start : Checker} (wellFormed : checker.WellFormed)
    (follows : checker.Follows start.signature) (featuresEq : checker.features = start.features)
    {id : TypeId} {ty : Ty} (denotes : checker.types.Denotes id ty)
    (isSome : start.signature.dropThisFormals ty ≠ none) :
    ∃ result after plain, (dropThisFormals id).run checker = .ok result after ∧
      start.signature.dropThisFormals ty = some plain ∧ after.types.Denotes result plain ∧
        checker.types.Extends after.types ∧ after.features = checker.features ∧
          after.WellFormed := by
  have rewrites := rewrites_dropThisFormals start
  obtain ⟨result, after, run⟩ := rewrites.exists_run wellFormed follows denotes featuresEq isSome
  obtain ⟨plain, good⟩ := rewrites.exists_of_run wellFormed follows denotes run
  exact ⟨result, after, plain, run, good⟩

/-- Dropping the formals for the type at hand leaves just those whose companions lie around a
feature for which one of them stood.  So dropping them once more gives the same unless
there is such a companion. -/
theorem dropThisFormals_mentionsThisOf_iff
    {start checker : Checker} (fresh : start.features = .initial)
    (registers : start.Registers checker) (wellFormed : checker.WellFormed) (ty : TypeId)
    (held : checker.types.Holds ty)
    (declares : checker.features.DeclaresFormals (checker.types.tree ty)) :
    ∃ once middle twice after, (dropThisFormals ty).run checker = .ok once middle ∧
      (dropThisFormals once).run middle = .ok twice after ∧
      middle.features = checker.features ∧
      (∀ companion, checker.features.originOf companion ≠ none →
        ((middle.types.tree once).MentionsThisOf companion ↔
          checker.features.BringsThisOf (checker.types.tree ty) companion)) ∧
      (twice = once ↔ ∀ companion, checker.features.originOf companion ≠ none →
        ¬checker.features.BringsThisOf (checker.types.tree ty) companion) := by
  have initially : start.features.Lawful ∧ start.features.ThisFormals := by
    rw [fresh]
    exact ⟨FeatureTable.initial_lawful, FeatureTable.initial_thisFormals⟩
  have lawful := registers.lawful initially.1
  have thisFormals := registers.thisFormals initially.1 initially.2
  obtain ⟨once, middle, plain, run, dropped, onceDenotes, extension, featuresEq, wellFormed'⟩ :=
    run_dropThisFormals wellFormed checker.follows_signature rfl ⟨held, rfl⟩
      (dropThisFormals_ne_none wellFormed lawful declares)
  have mentions : ∀ companion, checker.features.originOf companion ≠ none →
      (plain.MentionsThisOf companion ↔
        checker.features.BringsThisOf (checker.types.tree ty) companion) :=
    fun companion isCompanion => mentionsThisOf_dropped lawful thisFormals dropped isCompanion
  have declares' := declaresFormals_dropped lawful declares dropped
  have follows' := checker.follows_signature.of_extends wellFormed
    wellFormed'.types_canonical.toCoherent extension featuresEq
  obtain ⟨twice, after, plainer, run', dropped', twiceDenotes, extension', _, wellFormed''⟩ :=
    run_dropThisFormals wellFormed' follows' featuresEq onceDenotes
      (dropThisFormals_ne_none wellFormed lawful declares')
  refine ⟨once, middle, twice, after, run, run', featuresEq, ?_, ?_⟩
  · rw [onceDenotes.2]
    exact mentions
  · have coherent := wellFormed''.types_canonical.toCoherent
    have onceDenotes' := onceDenotes.of_extends wellFormed'.types_canonical.toCoherent coherent
      extension'
    have unchanged_iff := dropThisFormals_eq_self_iff declares'
    rw [dropped', Option.some.injEq] at unchanged_iff
    rw [twiceDenotes.inj onceDenotes' coherent, unchanged_iff]
    exact forall₂_congr fun companion isCompanion => not_congr (mentions companion isCompanion)

/-- A feature inside the companion of another one, its own companion, and a type that mentions
the formals of both companions for the type at hand. -/
def nestedOperations : List Operation :=
  [.declare (.feature "any" none true), .declare (.feature "Type" none true),
    .declare (.typeRoot ⟨2⟩), .declare (.feature "set" none false), .companion ⟨3⟩,
    .declare (.feature "item" (some ⟨4⟩) false), .companion ⟨5⟩,
    .construct (.formal ⟨⟨6⟩, 0⟩), .construct (.asRef ⟨8⟩),
    .construct (.applied ⟨1⟩ [⟨9⟩, ⟨5⟩] none true)]

/-- The item lies in the companion of the set, whose formal comes back with the type of the
item. -/
theorem dropThisFormals_mentionsThisOf_item :
    let checker := afterAll nestedOperations {}
    checker.types.tree ⟨10⟩ =
        .applied ⟨1⟩ [.formal ⟨⟨6⟩, 0⟩ true, .formal ⟨⟨4⟩, 0⟩ false] none true false ∧
      checker.features.BringsThisOf (checker.types.tree ⟨10⟩) ⟨4⟩ ∧
      ∃ once middle twice after, (dropThisFormals ⟨10⟩).run checker = .ok once middle ∧
        (dropThisFormals once).run middle = .ok twice after ∧
        (middle.types.tree once).MentionsThisOf ⟨4⟩ ∧ twice ≠ once := by
  intro checker
  have registers : Registers {} checker := Registers.refl.steps (by decide +kernel)
  have reachable : checker.Reachable := (Reachable.initial {} {}).steps (by decide +kernel)
  have treeEq : checker.types.tree ⟨10⟩ =
      .applied ⟨1⟩ [.formal ⟨⟨6⟩, 0⟩ true, .formal ⟨⟨4⟩, 0⟩ false] none true false := by
    decide +kernel
  have itemOrigin : checker.features.originOf ⟨6⟩ = some ⟨5⟩ := by decide +kernel
  have setOrigin : checker.features.originOf ⟨4⟩ = some ⟨3⟩ := by decide +kernel
  have isCompanion : checker.features.originOf ⟨4⟩ ≠ none := by simp [setOrigin]
  have brings : checker.features.BringsThisOf (checker.types.tree ⟨10⟩) ⟨4⟩ := by
    refine ⟨⟨6⟩, ⟨5⟩, ⟨true, ?_⟩, itemOrigin, .single ?_⟩
    · simp [treeEq, Ty.formal_mem_parts_applied, Ty.formal_mem_parts_formal]
    · exact FeatureTable.exists_of_outerOf (by decide +kernel)
  have declares : checker.features.DeclaresFormals (checker.types.tree ⟨10⟩) := by
    intro id boxed occurs
    have isEither : id = ⟨⟨6⟩, 0⟩ ∨ id = ⟨⟨4⟩, 0⟩ := by
      have mentioned : (id = ⟨⟨6⟩, 0⟩ ∧ boxed = true) ∨ id = ⟨⟨4⟩, 0⟩ ∧ boxed = false := by
        simpa [treeEq, Ty.formal_mem_parts_applied, Ty.formal_mem_parts_formal] using occurs
      exact mentioned.imp And.left And.left
    rcases isEither with rfl | rfl
    · obtain ⟨declared, found, _⟩ := FeatureTable.exists_of_originOf itemOrigin
      exact ⟨declared, found⟩
    · obtain ⟨declared, found, _⟩ := FeatureTable.exists_of_originOf setOrigin
      exact ⟨declared, found⟩
  obtain ⟨once, middle, twice, after, run, run', _, mentions, same_iff⟩ :=
    dropThisFormals_mentionsThisOf_iff rfl registers reachable.sound.toWellFormed ⟨10⟩
      (by decide +kernel) declares
  exact ⟨treeEq, brings, once, middle, twice, after, run, run',
    (mentions ⟨4⟩ isCompanion).mpr brings, fun same => same_iff.mp same ⟨4⟩ isCompanion brings⟩

/-- What is left of the formal for the item mentions the one for the set, and dropping this one
gives another type. -/
theorem dropThisFormals_inside_companion :
    let checker := afterAll nestedOperations {}
    checker.types.tree ⟨8⟩ = .formal ⟨⟨6⟩, 0⟩ false ∧ checker.features.originOf ⟨4⟩ = some ⟨3⟩ ∧
      ∃ once middle twice after, (dropThisFormals ⟨8⟩).run checker = .ok once middle ∧
        (dropThisFormals once).run middle = .ok twice after ∧
        middle.types.tree once = .applied ⟨5⟩ [] (some (.applied ⟨4⟩ [.formal ⟨⟨4⟩, 0⟩ false]
          none false false)) false true ∧ twice ≠ once := by
  intro checker
  have runs : EStateM.run' (do
      let once ← dropThisFormals ⟨8⟩
      let left ← readTypes (·.tree once)
      return (once, left, ← dropThisFormals once)) checker =
        some (⟨11⟩, .applied ⟨5⟩ [] (some (.applied ⟨4⟩ [.formal ⟨⟨4⟩, 0⟩ false]
          none false false)) false true, ⟨14⟩) := by
    decide +kernel
  obtain ⟨_, run⟩ := run'_eq_some_iff.mp runs
  obtain ⟨once, middle, dropsOnce, run⟩ := exists_of_run_bind run
  obtain ⟨left, middle', reads, run⟩ := exists_of_run_bind run
  obtain ⟨twice, after, dropsTwice, run⟩ := exists_of_run_bind run
  obtain ⟨results, _⟩ := EStateM.Result.ok.inj run
  rw [run_readTypes] at reads
  obtain ⟨rfl, rfl⟩ := EStateM.Result.ok.inj reads
  simp only [Prod.mk.injEq] at results
  obtain ⟨rfl, treeEq, rfl⟩ := results
  exact ⟨by decide +kernel, by decide +kernel, _, middle, _, after, dropsOnce, dropsTwice, treeEq,
    by decide⟩

end Checker

end FeatureTypes

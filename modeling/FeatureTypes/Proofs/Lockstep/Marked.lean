import FeatureTypes.Proofs.Checker.Reachable

/-!
# Marks that last

To show that every operation keeps some property of a checker, here called a mark, the
checker is run in lockstep with itself.
-/

namespace FeatureTypes.Lockstep

open Checker Coupling

/-- If results are remembered, then the same ones, and the first checker has the mark. -/
structure Marked (mark : Checker → Prop) (checker twin : Checker) : Prop
    extends Alike checker twin where
  marked : mark checker

/-- The mark survives growth in which the features are related by `grown`. -/
def Lasts (grown : FeatureTable → FeatureTable → Prop) (mark : Checker → Prop) : Prop :=
  ∀ {checker later : Checker}, mark checker → checker.WellFormed → later.WellFormed →
    checker.types.Extends later.types → grown checker.features later.features →
      later.options.memoize = checker.options.memoize →
        later.byOwner.entries = checker.byOwner.entries →
          later.viaType.entries = checker.viaType.entries → mark later

/-- A mark that survives whatever substitution and the creation of companions do. -/
structure Lasting (mark : Checker → Prop) : Prop where
  grow : Lasts Eq mark
  companion : ∀ {pair : Pair (Marked mark)} (id : FeatureId),
    (lockstep (Marked mark)).couples pair (companion? id) (companion? id)
      (lockstep (Marked mark)).Agrees
  byOwner : ∀ {checker after : Checker} (depth : Nat) (owner : FeatureId) {actuals : List TypeId}
    {target result : TypeId}, checker.Sound → mark checker → mark after → after.WellFormed →
      (∀ actual ∈ actuals, checker.types.Holds actual) → checker.types.Holds target →
        (substituteStep (substituteWithin depth) owner actuals target).run checker =
            .ok result after →
          mark { after with byOwner := after.byOwner.remember ⟨target, owner, actuals⟩ result }
  viaType : ∀ {checker after : Checker} (depth : Nat) {source target result : TypeId},
    checker.Sound → mark checker → mark after → after.WellFormed →
      checker.types.Holds source → checker.types.Holds target →
        (viewStep (substituteWithin depth) (substituteViaWithin depth) source target).run checker =
            .ok result after →
          mark { after with viaType := after.viaType.remember ⟨source, target⟩ result }

section

variable {mark : Checker → Prop}

theorem Pair.marked_sound (pair : Pair (Marked mark)) : pair.first.Sound :=
  { pair.twins.wellFormed with memos_stored := pair.related.stored }

/-- A marked checker in lockstep with itself. -/
def Pair.twice {checker : Checker} (sound : checker.Sound) (marked : mark checker) :
    Pair (Marked mark) :=
  ⟨checker, checker, sound.twins, sound.alike, marked⟩

theorem marked_stable (grow : Lasts Eq mark) : Stable (Marked mark) := by
  intro checker twin checker' twin' related twins twins' first second
  refine ⟨alike_growing.stable related.toAlike twins twins' first second, ?_⟩
  exact grow related.marked twins.wellFormed twins'.wellFormed first.types_extend
    first.features_eq.symm (by rw [first.options_eq]) (by rw [first.byOwner_eq])
    (by rw [first.viaType_eq])

theorem marked_growing (grow : Lasts FeatureTable.Grows mark) : Growing (Marked mark) := by
  intro checker twin checker' twin' related twins twins' first second
  refine ⟨alike_growing related.toAlike twins twins' first second, ?_⟩
  exact grow related.marked twins.wellFormed twins'.wellFormed first.types_extend
    first.features_grow (by rw [first.options_eq]) (by rw [first.byOwner_eq])
    (by rw [first.viaType_eq])

theorem Lasts.of_grows (grow : Lasts FeatureTable.Grows mark) : Lasts Eq mark :=
  fun marked wellFormed wellFormed' extension featuresEq =>
    grow marked wellFormed wellFormed' extension (featuresEq ▸ .refl _)

variable (lasting : Lasting mark)

include lasting

theorem transparent_marked : Transparent (Marked mark) where
  stable := marked_stable lasting.grow
  companion id := lasting.companion id
  byOwner {pair depth depth'} owner actuals target _ actualsHeld targetHeld coupled := by
    have related := pair.related
    have wellFormed := pair.twins.wellFormed
    have counted : mark { pair.first with
        byOwner := (pair.first.byOwner.consult ⟨target, owner, actuals⟩).2 } :=
      lasting.grow related.marked wellFormed
        ⟨wellFormed.types_canonical, wellFormed.features_wellFormed⟩ (.refl _) rfl rfl
        (Memo.consult_entries _ _) rfl
    refine couples_memoized (core (marked_stable lasting.grow)) related.memoize_eq (fun on =>
      couples_recallByOwner related.toAlike on _ ⟨related.consultByOwner _, counted⟩) coupled ?_
    rintro pair₁ next ty _ later _ run ⟨rfl, held⟩
    refine couples_rememberByOwner _ _ ⟨next.related.rememberByOwner _ held, ?_⟩
    exact lasting.byOwner depth owner pair₁.marked_sound pair₁.related.marked next.related.marked
      next.twins.wellFormed (fun actual member => later.holds (actualsHeld actual member))
      (later.holds targetHeld) run
  viaType {pair depth depth' source target} _ sourceHeld targetHeld coupled := by
    have related := pair.related
    have wellFormed := pair.twins.wellFormed
    have counted : mark { pair.first with
        viaType := (pair.first.viaType.consult ⟨source, target⟩).2 } :=
      lasting.grow related.marked wellFormed
        ⟨wellFormed.types_canonical, wellFormed.features_wellFormed⟩ (.refl _) rfl rfl rfl
        (Memo.consult_entries _ _)
    refine couples_memoized (core (marked_stable lasting.grow)) related.memoize_eq (fun on =>
      couples_recallViaType related.toAlike on _ ⟨related.consultViaType _, counted⟩) coupled ?_
    rintro pair₁ next ty _ later _ run ⟨rfl, held⟩
    refine couples_rememberViaType _ _ ⟨next.related.rememberViaType _ held, ?_⟩
    exact lasting.viaType depth pair₁.marked_sound pair₁.related.marked next.related.marked
      next.twins.wellFormed (later.holds sourceHeld) (later.holds targetHeld) run

end

/-! ## Declarations -/

/-- The later checker remembers the same as the earlier one, of which it has the types and
features. -/
structure Retains (checker later : Checker) : Prop extends checker.Later later where
  options_eq : later.options = checker.options
  byOwner_eq : later.byOwner = checker.byOwner
  viaType_eq : later.viaType = checker.viaType

theorem Retains.sound {checker later : Checker} (retains : Retains checker later)
    (sound : checker.Sound) (wellFormed : later.WellFormed) : later.Sound := by
  refine { wellFormed with memos_stored := fun on => ?_ }
  have stored := sound.memos_stored (retains.options_eq ▸ on)
  refine ⟨?_, ?_⟩
  · rw [retains.byOwner_eq]
    exact fun key result found => retains.types_extend.holds (stored.byOwner_held key result found)
  · rw [retains.viaType_eq]
    exact fun key result found => retains.types_extend.holds (stored.viaType_held key result found)

theorem after_declare_retains {checker : Checker} (wellFormed : checker.WellFormed)
    (declaration : Declaration) (held : ∀ ty ∈ declaration.uses, checker.types.Holds ty)
    (completes : (Operation.declare declaration).completes checker = true) :
    ((Operation.declare declaration).after checker).WellFormed ∧
      Retains checker ((Operation.declare declaration).after checker) := by
  let kept (later _ : Checker) : Prop := later.options = checker.options ∧
    later.byOwner = checker.byOwner ∧ later.viaType = checker.viaType
  have detached : Detached kept :=
    { stable := fun kept _ _ first _ => ⟨first.options_eq.trans kept.1,
        first.byOwner_eq.trans kept.2.1, first.viaType_eq.trans kept.2.2⟩
      rewrite := fun _ kept => kept }
  let pair : Pair kept := ⟨checker, checker, wellFormed.twins, ⟨rfl, rfl, rfl⟩⟩
  have coupled : (lockstep _).couples pair declaration.run declaration.run _ :=
    detached.couples_declaration declaration held
  obtain ⟨next, nextEq, later⟩ := @after_of_couples _ pair (.declare declaration) coupled completes
  obtain ⟨optionsEq, byOwnerEq, viaTypeEq⟩ := next.related
  rw [← nextEq]
  exact ⟨next.twins.wellFormed, ⟨later, optionsEq, byOwnerEq, viaTypeEq⟩⟩

/-! ## Operations -/

theorem after_twice {mark : Checker → Prop} {checker : Checker} {sound : checker.Sound}
    {marked : mark checker} {operation : Operation}
    (coupled : (lockstep (Marked mark)).couples (.twice sound marked) operation.run operation.run
      (lockstep (Marked mark)).Agrees) (completes : operation.completes checker = true) :
    (operation.after checker).Sound ∧ mark (operation.after checker) ∧
      checker.types.Extends (operation.after checker).types := by
  obtain ⟨next, nextEq, extension, _⟩ := after_of_couples coupled completes
  rw [show operation.after checker = next.first from nextEq.symm]
  exact ⟨next.marked_sound, next.related.marked, extension⟩

/-- A mark that lasts through growth lasts through every operation that completes. -/
theorem after_marked {mark : Checker → Prop} (lasting : Lasting mark) {checker : Checker}
    (sound : checker.Sound) (marked : mark checker)
    (forget : ∀ {checker later : Checker}, mark checker → later.WellFormed →
      later.types = checker.types → later.features = checker.features →
        later.byOwner.entries.isEmpty = true → later.viaType.entries.isEmpty = true → mark later)
    (operation : Operation) (held : ∀ ty ∈ operation.uses, checker.types.Holds ty)
    (completes : operation.completes checker = true)
    (declared : ∀ declaration, operation = .declare declaration →
      (operation.after checker).WellFormed → Retains checker (operation.after checker) →
        mark (operation.after checker)) :
    (operation.after checker).Sound ∧ mark (operation.after checker) ∧
      checker.types.Extends (operation.after checker).types := by
  have wellFormed := sound.toWellFormed
  have core := core (marked_stable lasting.grow)
  have ofCoupled := @after_twice mark checker sound marked operation
  cases operation with
  | construct construction =>
    exact ofCoupled (couples_construction core construction held) completes
  | declare declaration =>
    obtain ⟨wellFormedAfter, retains⟩ :=
      after_declare_retains wellFormed declaration held completes
    exact ⟨retains.sound sound wellFormedAfter, declared declaration rfl wellFormedAfter retains,
      retains.types_extend⟩
  | companion id => exact ofCoupled (couples_companion core (lasting.companion id)) completes
  | call request =>
    exact ofCoupled (couples_call (transparent_marked lasting).full request held) completes
  | clearMemos =>
    obtain ⟨after, run, idle, byOwner, viaType⟩ := run_clearMemos checker
    have afterEq : Operation.clearMemos.after checker = after := by
      simp only [Operation.after, Operation.run, EStateM.run_bind, run]
      rfl
    have wellFormedAfter := idle.wellFormed wellFormed
    rw [afterEq]
    refine ⟨{ wellFormedAfter with memos_stored := fun _ => memosStored_of_empty byOwner viaType },
      forget marked wellFormedAfter idle.types_eq idle.features_eq byOwner viaType, ?_⟩
    rw [idle.types_eq]
    exact .refl _
  | takeReports =>
    have wellFormedAfter : (Operation.takeReports.after checker).WellFormed :=
      ⟨wellFormed.types_canonical, wellFormed.features_wellFormed⟩
    have retains : Retains checker (Operation.takeReports.after checker) :=
      ⟨⟨.refl checker.types, .refl checker.features⟩, rfl, rfl, rfl⟩
    exact ⟨retains.sound sound wellFormedAfter,
      lasting.grow marked wellFormed wellFormedAfter (.refl checker.types) rfl rfl rfl rfl, .refl _⟩
  | restart options keepReports =>
    have wellFormedAfter : ((Operation.restart options keepReports).after checker).WellFormed :=
      ⟨wellFormed.types_canonical, wellFormed.features_wellFormed⟩
    exact ⟨{ wellFormedAfter with memos_stored := fun _ => memosStored_of_empty rfl rfl },
      forget marked wellFormedAfter rfl rfl rfl rfl, .refl _⟩

theorem after_sound {checker : Checker} (sound : checker.Sound) (operation : Operation)
    (held : ∀ ty ∈ operation.uses, checker.types.Holds ty)
    (completes : operation.completes checker = true) :
    (operation.after checker).Sound ∧ checker.types.Extends (operation.after checker).types := by
  have lasting : Lasting fun _ => True :=
    { grow := fun _ _ _ _ _ _ _ _ => trivial
      companion := fun id => couples_companion? (marked_growing fun _ _ _ _ _ _ _ _ => trivial) id
      byOwner := fun _ _ _ _ _ _ _ _ _ _ _ _ => trivial
      viaType := fun _ _ _ _ _ _ _ _ _ _ _ => trivial }
  obtain ⟨soundAfter, _, extension⟩ := after_marked lasting sound trivial
    (fun _ _ _ _ _ _ => trivial) operation held completes fun _ _ _ _ => trivial
  exact ⟨soundAfter, extension⟩

/-! ## Features that have grown -/

theorem lasts_grown (table : FeatureTable) :
    Lasts FeatureTable.Grows fun checker => table.Grows checker.features :=
  fun grown _ _ _ growth _ _ _ => FeatureTable.Grows.trans grown growth

theorem lasting_grown (table : FeatureTable) :
    Lasting fun checker => table.Grows checker.features where
  grow := Lasts.of_grows (lasts_grown table)
  companion id := couples_companion? (marked_growing (lasts_grown table)) id
  byOwner _ _ _ _ _ _ _ grown _ _ _ _ := grown
  viaType _ _ _ _ _ _ grown _ _ _ _ := grown

theorem grows_of_run {α : Type} {checker after : Checker} {operation : CheckM α} {result : α}
    (sound : checker.Sound)
    {relation : Pair (Marked fun later => checker.features.Grows later.features) → α → α → Prop}
    (coupled : (lockstep (Marked fun later => checker.features.Grows later.features)).couples
      (.twice sound (.refl _)) operation operation relation)
    (run : operation.run checker = .ok result after) :
    checker.types.Extends after.types ∧ checker.features.Grows after.features := by
  obtain ⟨next, rfl, extension⟩ := coupled.of_ok run
  exact ⟨extension, next.related.marked⟩

end FeatureTypes.Lockstep

/-- Every reachable checker is sound. -/
theorem FeatureTypes.Checker.Reachable.sound {checker : Checker} (reachable : checker.Reachable) :
    checker.Sound := by
  induction reachable with
  | initial options journal =>
    exact { initial_wellFormed options journal with
      memos_stored := fun _ => memosStored_of_empty rfl rfl }
  | step _ operation held completes ih =>
    exact (Lockstep.after_sound ih operation held completes).1

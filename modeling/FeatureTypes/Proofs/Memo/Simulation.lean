import FeatureTypes.Proofs.Lockstep.Alike
import FeatureTypes.Proofs.Replay

/-!
# Lockstep of a checker that remembers results with one that does not

A remembered result is sound if working it out anew, without remembering, gives it again and
changes nothing.
-/

namespace FeatureTypes

variable {twin after checker : Checker}

namespace Checker

/-- The checker without its memo tables. -/
def unmemoized (checker : Checker) : Checker :=
  { checker with
    byOwner := {}
    viaType := {}
    options := { checker.options with memoize := false } }

theorem WellFormed.unmemoized (wellFormed : checker.WellFormed) : checker.unmemoized.WellFormed :=
  ⟨wellFormed.types_canonical, wellFormed.features_wellFormed⟩

theorem Grows.unmemoized {later : Checker} (growth : checker.Grows later) :
    checker.unmemoized.Grows later.unmemoized where
  __ := growth
  options_eq := by simp only [Checker.unmemoized, growth.options_eq]

namespace Twins

theorem wellFormed_twin (twins : checker.Twins twin) : twin.WellFormed := by
  refine ⟨?_, ?_⟩
  · rw [twins.types_eq]
    exact twins.wellFormed.types_canonical
  · rw [twins.types_eq, twins.features_eq]
    exact twins.wellFormed.features_wellFormed

theorem symm (twins : checker.Twins twin) : twin.Twins checker :=
  ⟨twins.types_eq.symm, twins.features_eq.symm, twins.strict_eq.symm, twins.depthLimit_eq.symm,
    twins.recording_eq.symm, twins.reported_iff.symm, twins.wellFormed_twin⟩

theorem trans {first second third : Checker} (left : first.Twins second)
    (right : second.Twins third) : first.Twins third :=
  ⟨right.types_eq.trans left.types_eq, right.features_eq.trans left.features_eq,
    right.strict_eq.trans left.strict_eq, right.depthLimit_eq.trans left.depthLimit_eq,
    right.recording_eq.trans left.recording_eq, right.reported_iff.trans left.reported_iff,
    left.wellFormed⟩

theorem unmemoized (twins : checker.Twins twin) : checker.Twins twin.unmemoized :=
  { twins with }

theorem idles (twins : checker.Twins twin)
    (memoizeEq : twin.options.memoize = checker.options.memoize) : checker.Idles twin where
  __ := twins
  options_eq := by
    rw [show twin.options = ⟨twin.options.memoize, twin.options.strict, twin.options.depthLimit⟩
      from rfl, memoizeEq, twins.strict_eq, twins.depthLimit_eq]

end Twins

theorem Idles.twins (idle : checker.Idles after) (wellFormed : checker.WellFormed) :
    checker.Twins after :=
  ⟨idle.types_eq, idle.features_eq, congrArg Options.strict idle.options_eq,
    congrArg Options.depthLimit idle.options_eq, idle.recording_eq, idle.reported_iff, wellFormed⟩

end Checker

namespace Lockstep

open Checker Coupling

theorem alike_of_off (off : checker.options.memoize = false) (off' : twin.options.memoize = false) :
    Alike checker twin where
  memoize_eq := off'.trans off.symm
  byOwner_eq on := absurd (off.symm.trans on) Bool.false_ne_true
  viaType_eq on := absurd (off.symm.trans on) Bool.false_ne_true
  stored on := absurd (off.symm.trans on) Bool.false_ne_true

/-! ## Repeatable computations -/

/-- A computation on the types `needed` that can be repeated: it can be replayed,
and a greater depth makes no difference once the depth is enough. -/
structure Repeatable (needed : List TypeId) (compute : Nat → CheckM TypeId) : Prop where
  replays : ∀ (stage : Replay.Stage) (depth : Nat),
    (∀ ty ∈ needed, stage.checker.types.Holds ty) →
      Replay.Replays False stage (compute depth) (compute depth) (replay False).same
  deepens : ∀ (pair : Pair Alike) {depth depth' : Nat}, depth ≤ depth' →
    (∀ ty ∈ needed, pair.first.types.Holds ty) →
      (lockstep Alike).couples pair (compute depth) (compute depth') (lockstep Alike).same

theorem repeatable_substituteStep (owner : FeatureId) (actuals : List TypeId) (target : TypeId) :
    Repeatable (target :: actuals) fun depth =>
      substituteStep (substituteWithin depth) owner actuals target where
  replays stage depth held := by
    rw [List.forall_mem_cons] at held
    exact Replay.engine.substituteStep (Replay.engine.substituteWithin (Nat.le_refl depth)) stage
      owner _ _ _ _ (TypeStore.forall₂_shares_iff.mpr ⟨rfl, held.2⟩) ⟨rfl, held.1⟩
  deepens pair depth depth' enough held := by
    rw [List.forall_mem_cons] at held
    have engine := transparent_alike.full.toEngine
    exact engine.substituteStep (engine.substituteWithin enough) pair
      owner _ _ _ _ (TypeStore.forall₂_shares_iff.mpr ⟨rfl, held.2⟩) ⟨rfl, held.1⟩

theorem repeatable_viewStep (source target : TypeId) :
    Repeatable [source, target] fun depth =>
      viewStep (substituteWithin depth) (substituteViaWithin depth) source target where
  replays stage depth held := by
    simp only [List.forall_mem_cons] at held
    have enough := Nat.le_refl depth
    exact Replay.engine.viewStep (Replay.engine.substituteWithin enough)
      (fun _ _ _ _ _ => Replay.engine.substituteViaWithin enough) ⟨rfl, held.1⟩ ⟨rfl, held.2.1⟩
  deepens pair depth depth' enough held := by
    simp only [List.forall_mem_cons] at held
    have engine := transparent_alike.full.toEngine
    exact engine.viewStep (engine.substituteWithin enough)
      (fun _ _ _ _ _ => engine.substituteViaWithin enough) ⟨rfl, held.1⟩ ⟨rfl, held.2.1⟩

/-! ## Sound results -/

/-- The computation gives the result again, and changes nothing. -/
def Settled (compute : Nat → CheckM TypeId) (checker : Checker) (result : TypeId) : Prop :=
  ∃ depth after, (compute depth).run checker.unmemoized = .ok result after ∧
    checker.unmemoized.Idles after

section

variable {needed : List TypeId} {compute : Nat → CheckM TypeId}
  (repeatable : Repeatable needed compute)

include repeatable

theorem Settled.grow {later : Checker} {result : TypeId} (settled : Settled compute checker result)
    (held : ∀ ty ∈ needed, checker.types.Holds ty) (wellFormed : checker.WellFormed)
    (wellFormedLater : later.WellFormed) (growth : checker.Grows later) :
    Settled compute later result := by
  obtain ⟨depth, after, run, idle⟩ := settled
  obtain ⟨_, _, _, again⟩ := repeatable.replays ⟨_, wellFormed.unmemoized.sound_of_off rfl⟩
    depth held False.elim result after run
  obtain ⟨_, idle', run', rests, rfl, _⟩ := again
    ⟨_, wellFormedLater.unmemoized.sound_of_off rfl⟩
    ((idle.symm.grows.trans growth.unmemoized).persists_of_off (by rw [idle.options_eq]; rfl))
  exact ⟨depth, idle', run', rests.toIdles⟩

/-- What was worked out once is settled. -/
theorem settled_of_run {depth : Nat} {result : TypeId}
    (held : ∀ ty ∈ needed, checker.types.Holds ty) (wellFormed : checker.WellFormed)
    (off : checker.options.memoize = false) (run : (compute depth).run checker = .ok result after)
    (twins : after.Twins twin) : Settled compute twin result := by
  obtain ⟨_, _, sustains, again⟩ := repeatable.replays ⟨checker, wellFormed.sound_of_off off⟩
    depth held False.elim result after run
  have offAfter : after.options.memoize = false := sustains.toPersists.memoize_eq.trans off
  obtain ⟨_, idle, run', rests, rfl, _⟩ := again
    ⟨twin.unmemoized, twins.wellFormed_twin.unmemoized.sound_of_off rfl⟩
    ((twins.unmemoized.idles offAfter.symm).grows.persists_of_off offAfter)
  exact ⟨depth, idle, run', rests.toIdles⟩

/-- A settled result comes out again, unless the calls nest too deeply. -/
theorem Settled.run {result : TypeId} (settled : Settled compute twin result)
    (held : ∀ ty ∈ needed, checker.types.Holds ty) (off : checker.options.memoize = false)
    (twins : checker.Twins twin) (depth : Nat) :
    (∃ after, (compute depth).run checker = .ok result after ∧ after.types.Holds result ∧
        after.options.memoize = false ∧ after.Twins twin) ∨
      ∃ after, (compute depth).run checker = .error .depthExceeded after := by
  obtain ⟨enough, after, run, idle⟩ := settled
  have afterTwins : after.Twins twin :=
    (idle.twins twins.wellFormed_twin.unmemoized).symm.trans
      (twins.wellFormed_twin.twins.unmemoized.symm)
  rcases Nat.le_total depth enough with shallower | deeper
  · have coupled := repeatable.deepens
      ⟨checker, twin.unmemoized, twins.unmemoized, alike_of_off off rfl⟩ shallower held
    simp only [lockstep, run] at coupled
    generalize (compute depth).run checker = outcome at coupled ⊢
    cases coupled with
    | exhausted after => exact Or.inr ⟨after, rfl⟩
    | ok next _ related =>
      obtain ⟨rfl, resultHeld⟩ := related
      have memoizeEq : next.first.options.memoize = false := by
        rw [← next.related.memoize_eq, idle.options_eq]
        rfl
      exact Or.inl ⟨next.first, rfl, resultHeld, memoizeEq, next.twins.trans afterTwins⟩
  · have coupled := repeatable.deepens
      ⟨twin.unmemoized, checker, twins.unmemoized.symm, alike_of_off rfl off⟩ deeper
      fun ty member => by
        rw [← twins.unmemoized.symm.types_eq]
        exact held ty member
    simp only [lockstep, run] at coupled
    generalize (compute depth).run checker = outcome at coupled ⊢
    cases coupled with
    | ok next _ related =>
      obtain ⟨rfl, resultHeld⟩ := related
      rw [← next.twins.types_eq] at resultHeld
      have memoizeEq : next.second.options.memoize = false := by
        rw [next.related.memoize_eq, idle.options_eq]
        rfl
      exact Or.inl
        ⟨next.second, rfl, resultHeld, memoizeEq, next.twins.symm.trans afterTwins⟩

end

/-! ## The simulation -/

/-- Every remembered result is sound. -/
structure MemosSound (checker : Checker) : Prop where
  byOwner_sound : ∀ (key : SubstitutionKey) (result : TypeId),
    checker.byOwner.entries[key]? = some result →
      (∀ ty ∈ key.target :: key.actuals, checker.types.Holds ty) ∧
        Settled
          (fun depth =>
            substituteStep (substituteWithin depth) key.owner key.actuals key.target)
          checker result
  viaType_sound : ∀ (key : ViewKey) (result : TypeId),
    checker.viaType.entries[key]? = some result →
      (∀ ty ∈ [key.source, key.target], checker.types.Holds ty) ∧
        Settled (fun depth => viewStep (substituteWithin depth) (substituteViaWithin depth)
          key.source key.target) checker result

theorem memosSound_of_empty (byOwner : checker.byOwner.entries.isEmpty = true)
    (viaType : checker.viaType.entries.isEmpty = true) : MemosSound checker where
  byOwner_sound key result found := by simp [Std.TreeMap.getElem?_of_isEmpty byOwner] at found
  viaType_sound key result found := by simp [Std.TreeMap.getElem?_of_isEmpty viaType] at found

/-- The first checker remembers nothing, and what the second one remembers is
sound. -/
structure Simulated (checker twin : Checker) : Prop where
  off : checker.options.memoize = false
  on : twin.options.memoize = true
  sound : MemosSound twin

theorem MemosSound.advance {later : Checker} (sound : MemosSound checker)
    (wellFormed : checker.WellFormed) (wellFormedLater : later.WellFormed)
    (advance : checker.Advances later) : MemosSound later where
  byOwner_sound key result found := by
    rw [advance.byOwner_eq] at found
    obtain ⟨held, settled⟩ := sound.byOwner_sound key result found
    exact ⟨fun ty member => advance.types_extend.holds (held ty member),
      settled.grow (repeatable_substituteStep _ _ _) held wellFormed wellFormedLater
        advance.toGrows⟩
  viaType_sound key result found := by
    rw [advance.viaType_eq] at found
    obtain ⟨held, settled⟩ := sound.viaType_sound key result found
    exact ⟨fun ty member => advance.types_extend.holds (held ty member),
      settled.grow (repeatable_viewStep _ _) held wellFormed wellFormedLater advance.toGrows⟩

theorem simulated_growing : Growing Simulated := by
  intro checker twin checker' twin' simulated twins twins' first second
  refine ⟨?_, ?_, ?_⟩
  · rw [first.options_eq, simulated.off]
  · rw [second.options_eq, simulated.on]
  · exact simulated.sound.advance twins.wellFormed_twin twins'.wellFormed_twin second

/-- One checker works out what the other recalls. -/
theorem couples_simulated {needed : List TypeId} {compute : Nat → CheckM TypeId}
    {pair : Pair Simulated} {known known' : CheckM (Option TypeId)}
    {remember remember' : TypeId → CheckM Unit} {depth depth' : Nat}
    (repeatable : Repeatable needed compute) (held : ∀ ty ∈ needed, pair.first.types.Holds ty)
    (recalled : ∃ found counted, known'.run pair.second = .ok found counted ∧
      pair.first.Twins counted ∧ Simulated pair.first counted ∧
        ∀ result ∈ found, Settled compute counted result)
    (computed : ∀ pair' : Pair Simulated, pair.first.Later pair'.first →
      (lockstep Simulated).couples pair' (compute depth) (compute depth') (lockstep Simulated).same)
    (remembered : ∀ (pair' : Pair Simulated) (result : TypeId),
      pair.first.types.Extends pair'.first.types → Settled compute pair'.second result →
        ∃ after, (remember' result).run pair'.second = .ok () after ∧
          pair'.first.Twins after ∧ Simulated pair'.first after) :
    (lockstep Simulated).couples pair (memoized known remember (compute depth))
      (memoized known' remember' (compute depth')) (lockstep Simulated).same := by
  obtain ⟨found, counted, run, twins, simulated, settled⟩ := recalled
  simp only [lockstep, run_memoized_off pair.related.off, run_memoized_on pair.related.on,
    EStateM.run_bind, run]
  cases found with
  | some result =>
    rcases (settled result rfl).run repeatable held pair.related.off twins depth with
      ⟨after, run', resultHeld, off, afterTwins⟩ | ⟨after, run'⟩
    · rw [run']
      have later : pair.first.Later after := by
        refine ⟨?_, ?_⟩
        · rw [← afterTwins.types_eq, twins.types_eq]
          exact .refl _
        · rw [← afterTwins.features_eq, twins.features_eq]
          exact .refl _
      exact .ok
        (⟨after, counted, afterTwins, off, simulated.on, simulated.sound⟩ : Pair Simulated) later
        ⟨rfl, resultHeld⟩
    · rw [run']
      exact .exhausted _ _
  | none =>
    have coupled := computed ⟨pair.first, counted, twins, simulated⟩ (.refl _)
    simp only [lockstep, EStateM.run_bind] at coupled ⊢
    generalize outcomeEq : (compute depth).run pair.first = outcome at coupled ⊢
    generalize (compute depth').run counted = outcome' at coupled ⊢
    cases coupled with
    | failed failure next later => exact .failed failure next later
    | exhausted checker => exact .exhausted checker _
    | ok next later related =>
      obtain ⟨rfl, resultHeld⟩ := related
      have settled := settled_of_run repeatable held pair.twins.wellFormed pair.related.off
        outcomeEq next.twins
      obtain ⟨after, run', afterTwins, afterSimulated⟩ :=
        remembered next _ later.types_extend settled
      simp only [run']
      have later : pair.first.Later next.first := later
      exact .ok (⟨next.first, after, afterTwins, afterSimulated⟩ : Pair Simulated) later
        ⟨rfl, resultHeld⟩

theorem transparent_simulated : Transparent Simulated where
  stable := simulated_growing.stable
  companion id := couples_companion? simulated_growing id
  byOwner {pair depth depth'} owner actuals target enough actualsHeld targetHeld coupled := by
    have needed := List.forall_mem_cons.mpr ⟨targetHeld, actualsHeld⟩
    refine couples_simulated (repeatable_substituteStep owner actuals target) needed ?_ coupled ?_
    · have sound := pair.related.sound
      refine ⟨_, _, run_recallByOwner _ _, Twins.withMemos pair.twins _ _ _ _,
        ⟨pair.related.off, pair.related.on, ?_, sound.viaType_sound⟩, ?_⟩
      · simp only [Memo.consult_entries]
        exact sound.byOwner_sound
      · exact fun result found => (sound.byOwner_sound _ result found).2
    · intro pair' result extension settled
      have sound := pair'.related.sound
      refine ⟨_, rfl, Twins.withMemos pair'.twins _ _ _ _,
        ⟨pair'.related.off, pair'.related.on, ?_, sound.viaType_sound⟩⟩
      intro key result' found
      rcases Memo.remember_cases _ found with ⟨sameKey, rfl⟩ | old
      · obtain rfl := SubstitutionKey.eq_of_compare sameKey
        refine ⟨fun ty member => ?_, settled⟩
        change pair'.second.types.Holds ty
        rw [pair'.twins.types_eq]
        exact extension.holds (needed ty member)
      · exact sound.byOwner_sound key result' old
  viaType {pair depth depth' source target} enough sourceHeld targetHeld coupled := by
    have needed : ∀ ty ∈ [source, target], pair.first.types.Holds ty := by
      simp [sourceHeld, targetHeld]
    refine couples_simulated (repeatable_viewStep source target) needed ?_ coupled ?_
    · have sound := pair.related.sound
      refine ⟨_, _, run_recallViaType _ _, Twins.withMemos pair.twins _ _ _ _,
        ⟨pair.related.off, pair.related.on, sound.byOwner_sound, ?_⟩, ?_⟩
      · simp only [Memo.consult_entries]
        exact sound.viaType_sound
      · exact fun result found => (sound.viaType_sound _ result found).2
    · intro pair' result extension settled
      have sound := pair'.related.sound
      refine ⟨_, rfl, Twins.withMemos pair'.twins _ _ _ _,
        ⟨pair'.related.off, pair'.related.on, sound.byOwner_sound, ?_⟩⟩
      intro key result' found
      rcases Memo.remember_cases _ found with ⟨sameKey, rfl⟩ | old
      · obtain rfl := ViewKey.eq_of_compare sameKey
        refine ⟨fun ty member => ?_, settled⟩
        change pair'.second.types.Holds ty
        rw [pair'.twins.types_eq]
        exact extension.holds (needed ty member)
      · exact sound.viaType_sound key result' old

end Lockstep

end FeatureTypes

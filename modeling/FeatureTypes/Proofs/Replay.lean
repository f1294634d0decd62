import FeatureTypes.Proofs.Coupling.Checks
import FeatureTypes.Proofs.Coupling.Shared
import FeatureTypes.Proofs.Memo.Basic
import FeatureTypes.Proofs.Store.Display

/-!
# Replayed runs

Running an operation of the engine a second time gives the same result and leaves the
checker as it is, however much the checker has grown since the first run.
-/

namespace FeatureTypes

namespace Checker

/-- The later checker has grown, and remembers all that the earlier one remembers. -/
structure Persists (checker later : Checker) : Prop extends Grows checker later where
  byOwner_kept : checker.options.memoize = true → ∀ (key : SubstitutionKey) (result : TypeId),
    checker.byOwner.entries[key]? = some result → later.byOwner.entries[key]? = some result
  viaType_kept : checker.options.memoize = true → ∀ (key : ViewKey) (result : TypeId),
    checker.viaType.entries[key]? = some result → later.viaType.entries[key]? = some result

namespace Persists

theorem refl (checker : Checker) : checker.Persists checker :=
  { Grows.refl checker with
    byOwner_kept := fun _ _ _ => id
    viaType_kept := fun _ _ _ => id }

section

variable {first second third : Checker} (lower : first.Persists second)

include lower

theorem memoize_eq : second.options.memoize = first.options.memoize :=
  congrArg Options.memoize lower.options_eq

theorem trans (upper : second.Persists third) : first.Persists third :=
  { lower.toGrows.trans upper.toGrows with
    byOwner_kept := fun on key result found =>
      upper.byOwner_kept (lower.memoize_eq.trans on) key result
        (lower.byOwner_kept on key result found)
    viaType_kept := fun on key result found =>
      upper.viaType_kept (lower.memoize_eq.trans on) key result
        (lower.viaType_kept on key result found) }

theorem rememberByOwner {key : SubstitutionKey} (missing : first.byOwner.entries[key]? = none)
    (result : TypeId) :
    first.Persists { second with byOwner := second.byOwner.remember key result } :=
  { lower with
    byOwner_kept := fun on key' result' found => by
      rw [Memo.remember_of_ne _ _ fun same => by simp [← same, found] at missing]
      exact lower.byOwner_kept on key' result' found }

theorem rememberViaType {key : ViewKey} (missing : first.viaType.entries[key]? = none)
    (result : TypeId) :
    first.Persists { second with viaType := second.viaType.remember key result } :=
  { lower with
    viaType_kept := fun on key' result' found => by
      rw [Memo.remember_of_ne _ _ fun same => by simp [← same, found] at missing]
      exact lower.viaType_kept on key' result' found }

end

end Persists

/-- What a run of the engine makes of a checker: the features are the same, and reports are added
at most, and not even that if the run is `quiet`. -/
structure Sustains (quiet : Prop) (checker later : Checker) : Prop
    extends Persists checker later where
  features_eq : later.features = checker.features
  reports_kept : checker.reports.toList <+: later.reports.toList
  reports_eq : quiet → later.reports = checker.reports

namespace Sustains

variable {quiet : Prop}

theorem refl (checker : Checker) : checker.Sustains quiet checker :=
  { Persists.refl checker with
    features_eq := rfl
    reports_kept := List.prefix_rfl
    reports_eq := fun _ => rfl }

theorem trans {first second third : Checker} (lower : first.Sustains quiet second)
    (upper : second.Sustains quiet third) : first.Sustains quiet third :=
  { lower.toPersists.trans upper.toPersists with
    features_eq := upper.features_eq.trans lower.features_eq
    reports_kept := lower.reports_kept.trans upper.reports_kept
    reports_eq := fun isQuiet => (upper.reports_eq isQuiet).trans (lower.reports_eq isQuiet) }

end Sustains

theorem Grows.persists_of_off {checker later : Checker} (persists : checker.Grows later)
    (off : checker.options.memoize = false) : checker.Persists later :=
  { persists with
    byOwner_kept := fun on => absurd (off.symm.trans on) Bool.false_ne_true
    viaType_kept := fun on => absurd (off.symm.trans on) Bool.false_ne_true }

section

variable {checker : Checker} (sound : checker.Sound) {ty : TypeId} (held : checker.types.Holds ty)

include sound held

theorem Sound.rememberByOwner (key : SubstitutionKey) :
    Sound { checker with byOwner := checker.byOwner.remember key ty } :=
  { sound with
    memos_stored := fun on => by
      refine ⟨fun key' result found => ?_, (sound.memos_stored on).viaType_held⟩
      rcases Memo.remember_cases _ found with ⟨_, rfl⟩ | old
      · exact held
      · exact (sound.memos_stored on).byOwner_held key' result old }

theorem Sound.rememberViaType (key : ViewKey) :
    Sound { checker with viaType := checker.viaType.remember key ty } :=
  { sound with
    memos_stored := fun on => by
      refine ⟨(sound.memos_stored on).byOwner_held, fun key' result found => ?_⟩
      rcases Memo.remember_cases _ found with ⟨_, rfl⟩ | old
      · exact held
      · exact (sound.memos_stored on).viaType_held key' result old }

end

/-- The checker is as before, up to repeated reports, events and memo tables. -/
structure Idles (checker after : Checker) : Prop where
  types_eq : after.types = checker.types
  features_eq : after.features = checker.features
  options_eq : after.options = checker.options
  recording_eq : after.journal.recording = checker.journal.recording
  reported_iff : 0 < after.reports.size ↔ 0 < checker.reports.size

namespace Idles

theorem refl (checker : Checker) : checker.Idles checker :=
  ⟨rfl, rfl, rfl, rfl, Iff.rfl⟩

theorem trans {first second third : Checker} (lower : first.Idles second)
    (upper : second.Idles third) : first.Idles third :=
  ⟨upper.types_eq.trans lower.types_eq, upper.features_eq.trans lower.features_eq,
    upper.options_eq.trans lower.options_eq, upper.recording_eq.trans lower.recording_eq,
    upper.reported_iff.trans lower.reported_iff⟩

section

variable {after checker : Checker} (idle : checker.Idles after)

include idle

theorem symm : after.Idles checker :=
  ⟨idle.types_eq.symm, idle.features_eq.symm, idle.options_eq.symm, idle.recording_eq.symm,
    idle.reported_iff.symm⟩

theorem grows : checker.Grows after where
  types_extend := by
    rw [idle.types_eq]
    exact .refl _
  features_grow := by
    rw [idle.features_eq]
    exact .refl _
  options_eq := idle.options_eq
  recording_eq := idle.recording_eq
  reported := idle.reported_iff.mpr

theorem wellFormed (wellFormed : checker.WellFormed) : after.WellFormed := by
  refine ⟨?_, ?_⟩
  · rw [idle.types_eq]
    exact wellFormed.types_canonical
  · rw [idle.types_eq, idle.features_eq]
    exact wellFormed.features_wellFormed

end

end Idles

/-- The checker is as before, up to repeated reports, events and consulted memo tables. -/
structure Rests (checker after : Checker) : Prop extends Idles checker after where
  byOwner_eq : after.byOwner.entries = checker.byOwner.entries
  viaType_eq : after.viaType.entries = checker.viaType.entries

namespace Rests

theorem refl (checker : Checker) : checker.Rests checker :=
  { Idles.refl checker with
    byOwner_eq := rfl
    viaType_eq := rfl }

theorem trans {first second third : Checker} (lower : first.Rests second)
    (upper : second.Rests third) : first.Rests third :=
  { lower.toIdles.trans upper.toIdles with
    byOwner_eq := upper.byOwner_eq.trans lower.byOwner_eq
    viaType_eq := upper.viaType_eq.trans lower.viaType_eq }

section

variable {after checker : Checker} (rests : checker.Rests after)

include rests

theorem persists : checker.Persists after :=
  { rests.grows with
    byOwner_kept := by simp [rests.byOwner_eq]
    viaType_kept := by simp [rests.viaType_eq] }

theorem sustains {quiet : Prop} (reportsEq : after.reports = checker.reports) :
    checker.Sustains quiet after :=
  { rests.persists with
    features_eq := rests.features_eq
    reports_kept := by simp [reportsEq]
    reports_eq := fun _ => reportsEq }

theorem sound (sound : checker.Sound) : after.Sound :=
  { rests.wellFormed sound.toWellFormed with
    memos_stored := fun on => by
      have stored := sound.memos_stored (rests.options_eq ▸ on)
      refine ⟨?_, ?_⟩
      · rw [rests.byOwner_eq, rests.types_eq]
        exact stored.byOwner_held
      · rw [rests.viaType_eq, rests.types_eq]
        exact stored.viaType_held }

end

theorem record (checker : Checker) (event : Event) :
    ∃ after, (record event).run checker = .ok () after ∧ checker.Rests after ∧
      after.reports = checker.reports := by
  rw [run_record]
  split
  · exact ⟨_, rfl, { refl checker with }, rfl⟩
  · exact ⟨_, rfl, refl checker, rfl⟩

end Rests

end Checker

namespace Replay

open Checker

/-- A sound checker. -/
@[ext]
structure Stage where
  checker : Checker
  sound : checker.Sound

/-- If the first operation succeeds, then the second one succeeds in every checker
that has grown from where the first one ended, and leaves it as it is.  Quiet runs are
those without open formals. -/
def Replays {α β : Type} (quiet : Prop) (start : Stage) (operation : CheckM α)
    (operation' : CheckM β) (relation : Stage → α → β → Prop) : Prop :=
  (quiet → start.checker.features.FormalsClosed) → ∀ result after,
    operation.run start.checker = .ok result after →
    ∃ stop : Stage, stop.checker = after ∧ start.checker.Sustains quiet after ∧
      ∀ again : Stage, after.Persists again.checker →
        ∃ result' idle, operation'.run again.checker = .ok result' idle ∧
          again.checker.Rests idle ∧ relation stop result result'

end Replay

open Replay in
def replay (quiet : Prop) : Coupling where
  World := Stage
  later stage stage' := stage.checker.Persists stage'.checker
  same stage := stage.checker.types.Shares
  stores stage types types' :=
    types = stage.checker.types ∧ types.Extends types' ∧ types'.Canonical
  couples := Replays quiet

namespace Replay

open Checker Coupling

variable {quiet : Prop} {start : Stage}

/-! ## Sequences -/

/-- A run is replayed step by step. -/
theorem replays_bind {α β γ δ : Type} {operation : CheckM α} {operation' : CheckM β}
    {next : α → CheckM γ} {next' : β → CheckM δ} {relation : Stage → α → β → Prop}
    {relation' : Stage → γ → δ → Prop}
    (coupled : Replays quiet start operation operation' relation)
    (further : ∀ stage result result', start.checker.Persists stage.checker →
      relation stage result result' → Replays quiet stage (next result) (next' result') relation') :
    Replays quiet start (operation >>= next) (operation' >>= next') relation' := by
  intro closed final after run
  rw [EStateM.run_bind] at run
  cases first : operation.run start.checker with
  | error failure checker => simp [first] at run
  | ok result middle =>
    simp only [first] at run
    obtain ⟨stop, rfl, sustains, again⟩ := coupled closed result middle first
    have rest : ∀ result', relation stop result result' →
        Replays quiet stop (next result) (next' result') relation' :=
      fun result' => further stop result result' sustains.toPersists
    rw [← sustains.features_eq] at closed
    -- The replay in the checker where the first part stopped shows that the rest grows it.
    obtain ⟨result', _, _, _, related⟩ := again stop (.refl _)
    obtain ⟨last, lastEq, sustains', _⟩ := rest result' related closed final after run
    refine ⟨last, lastEq, sustains.trans sustains', ?_⟩
    intro stage later
    obtain ⟨result', idle, run', rests, related⟩ := again stage (sustains'.toPersists.trans later)
    obtain ⟨last', lastEq', _, again'⟩ := rest result' related closed final after run
    obtain ⟨final', idle', run'', rests', related'⟩ :=
      again' ⟨idle, rests.sound stage.sound⟩ (later.trans rests.persists)
    refine ⟨final', idle', ?_, rests.trans rests', ?_⟩
    · simp only [EStateM.run_bind, run']
      exact run''
    · rw [Stage.ext (lastEq.trans lastEq'.symm)]
      exact related'

theorem replays_noting {α β : Type} {operation : CheckM α} {operation' : CheckM β}
    {relation : Stage → α → β → Prop}
    (coupled : Replays quiet start operation operation' relation) :
    Replays quiet start operation operation' fun stage result result' =>
      relation stage result result' ∧ ∃ after, operation.run start.checker = .ok result after := by
  intro closed result after run
  obtain ⟨stop, stopEq, sustains, again⟩ := coupled closed result after run
  refine ⟨stop, stopEq, sustains, fun stage later => ?_⟩
  obtain ⟨result', idle, run', rests, related⟩ := again stage later
  exact ⟨result', idle, run', rests, related, after, run⟩

theorem replays_rest {α β : Type} {operation : CheckM α} {operation' : CheckM β}
    {relation : Stage → α → β → Prop}
    (rests : ∀ result after, operation.run start.checker = .ok result after →
      start.checker.Rests after ∧ after.reports = start.checker.reports ∧
        ∀ again : Stage, start.checker.Persists again.checker →
        ∃ result' idle, operation'.run again.checker = .ok result' idle ∧
          again.checker.Rests idle ∧ ∀ stop : Stage, stop.checker = after →
            relation stop result result') : Replays quiet start operation operation' relation := by
  intro _ result after run
  obtain ⟨rested, reportsEq, again⟩ := rests result after run
  let stop : Stage := ⟨after, rested.sound start.sound⟩
  refine ⟨stop, rfl, rested.sustains reportsEq, ?_⟩
  intro stage later
  obtain ⟨result', idle, run', rests', related⟩ := again stage (rested.persists.trans later)
  exact ⟨result', idle, run', rests', related stop rfl⟩

theorem replays_query {α : Type} {operation operation' : CheckM α}
    (query query' : TypeStore → FeatureTable → Except Failure α)
    (runs : ∀ checker, operation.run checker =
      checker.answer (query checker.types checker.features))
    (runs' : ∀ checker, operation'.run checker =
      checker.answer (query' checker.types checker.features)) {relation : Stage → α → α → Prop}
    (lasting : ∀ again : Stage, start.checker.Persists again.checker → ∀ result,
      query start.checker.types start.checker.features = .ok result →
        ∃ result', query' again.checker.types again.checker.features = .ok result' ∧
          relation start result result') : Replays quiet start operation operation' relation := by
  refine replays_rest ?_
  intro result after run
  rw [runs] at run
  cases found : query start.checker.types start.checker.features with
  | error failure => simp [found, answer] at run
  | ok answered =>
    simp only [found, answer, EStateM.Result.ok.injEq] at run
    obtain ⟨rfl, rfl⟩ := run
    refine ⟨.refl _, rfl, fun again later => ?_⟩
    obtain ⟨result', found', related⟩ := lasting again later answered found
    refine ⟨result', again.checker, ?_, .refl _, fun stop stopEq => ?_⟩
    · rw [runs', found']
      rfl
    · rw [Stage.ext stopEq]
      exact related

/-! ## Types and features -/

theorem replays_intern (start : Stage) {layer layer' : Node}
    (related : Node.Related start.checker.types.Shares layer layer') :
    Replays quiet start (onTypes (·.intern layer)) (onTypes (·.intern layer'))
      (replay quiet).same := by
  obtain ⟨rfl, parts⟩ := TypeStore.node_related_shares_iff.mp related
  intro _ result after run
  simp only [run_onTypes, EStateM.Result.ok.injEq] at run
  obtain ⟨rfl, rfl⟩ := run
  have canonical := start.sound.types_canonical
  have extension := TypeStore.intern_extends start.checker.types layer'
  let after := { start.checker with types := (start.checker.types.intern layer').2 }
  have sustains : start.checker.Sustains quiet after :=
    { Sustains.refl start.checker with types_extend := extension }
  obtain ⟨held, stored⟩ := TypeStore.intern_holds canonical.toCoherent layer'
  let stop : Stage := ⟨after, ⟨TypeStore.intern_canonical canonical parts,
    start.sound.features_wellFormed.of_extends extension⟩, fun on =>
      ⟨fun _ _ found => extension.holds ((start.sound.memos_stored on).byOwner_held _ _ found),
        fun _ _ found => extension.holds ((start.sound.memos_stored on).viaType_held _ _ found)⟩⟩
  refine ⟨stop, rfl, sustains, ?_⟩
  intro again later
  have found := TypeStore.intern_node again.sound.types_canonical.toCoherent
    (later.types_extend.holds held)
  rw [later.types_extend.node_eq held, stored] at found
  refine ⟨_, again.checker, ?_, .refl _, ⟨rfl, held⟩⟩
  rw [run_onTypes, found]

theorem replays_feature (start : Stage) (id : FeatureId) :
    Replays quiet start (feature id) (feature id) fun stage =>
      Feature.Related stage.checker.types.Shares := by
  refine replays_query (fun _ table => table.get id) (fun _ table => table.get id)
    (fun _ => run_readFeatures _ _) (fun _ => run_readFeatures _ _) ?_
  intro again later declared found
  obtain ⟨companion, foundLater⟩ := later.features_grow.get_eq id declared found
  exact ⟨_, foundLater,
    (start.sound.features_wellFormed id declared found).related companion⟩

theorem replays_record (start : Stage) (event event' : Event) :
    Replays quiet start (record event) (record event') (replay quiet).Agrees := by
  refine replays_rest ?_
  intro _ after run
  obtain ⟨after', run', idle, reportsEq⟩ := Rests.record start.checker event
  obtain ⟨_, rfl⟩ := EStateM.Result.ok.inj (run'.symm.trans run)
  refine ⟨idle, reportsEq, fun again _ => ?_⟩
  obtain ⟨idle', runs, idles, _⟩ := Rests.record again.checker event'
  exact ⟨(), idle', runs, idles, fun _ _ => rfl⟩

theorem core : (replay quiet).Core where
  later_refl stage := .refl _
  later_trans lower upper := lower.trans upper
  same_later shared persists := shared.of_extends persists.types_extend
  same_iff := by
    rintro stage left left' right right' ⟨rfl, _⟩ ⟨rfl, _⟩
    exact Iff.rfl
  same_error stage := ⟨rfl, stage.sound.types_canonical.error_exact.1⟩
  same_void stage := ⟨rfl, stage.sound.types_canonical.void_exact.1⟩
  same_undefined stage := ⟨rfl, stage.sound.types_canonical.undefined_exact.1⟩
  layer := by
    rintro stage types types' ty ty' ⟨rfl, extension, _⟩ ⟨rfl, held⟩
    rw [extension.node_eq held, extension.flags_eq held]
    exact ⟨stage.sound.types_canonical.node_related held, rfl⟩
  child_lt := by
    rintro stage types types' ty ty' ⟨rfl, extension, _⟩ ⟨rfl, held⟩
    have smaller := stage.sound.types_canonical.child_lt ty' held
    rw [extension.node_eq held]
    exact ⟨smaller, smaller⟩
  pure {_ _ start _ _ _} related := by
    refine replays_rest ?_
    intro _ after run
    obtain ⟨rfl, rfl⟩ := EStateM.Result.ok.inj run
    refine ⟨.refl _, rfl, fun again _ => ⟨_, again.checker, rfl, .refl _, fun stop stopEq => ?_⟩⟩
    rw [Stage.ext stopEq]
    exact related
  bind coupled further := replays_bind coupled further
  fail failure _ _ _ _ run := by cases run
  read {_ _ start query query' relation} related := by
    refine replays_rest ?_
    intro _ after run
    obtain ⟨rfl, rfl⟩ := EStateM.Result.ok.inj run
    refine ⟨.refl _, rfl, fun again later =>
      ⟨_, again.checker, rfl, .refl _, fun stop stopEq => ?_⟩⟩
    rw [Stage.ext stopEq]
    exact related _ _ ⟨rfl, later.types_extend, again.sound.types_canonical⟩
  intern {start _ _} related := replays_intern start related
  feature {start} id := replays_feature start id
  inherits {start} heir ancestor := by
    refine replays_query (fun _ table => table.inheritsFrom heir ancestor)
      (fun _ table => table.inheritsFrom heir ancestor)
      (fun _ => run_readFeatures _ _) (fun _ => run_readFeatures _ _) ?_
    intro again later result found
    exact ⟨result, later.features_grow.inheritsFrom_eq found, rfl⟩
  display {start ty ty'} := by
    rintro ⟨rfl, held⟩
    refine replays_query (fun types table => types.display table ty')
      (fun types table => types.display table ty')
      (fun checker => run_display checker ty') (fun checker => run_display checker ty') ?_
    intro again later text shown
    exact ⟨text, TypeStore.display_eq start.sound.types_canonical.toCoherent
      later.types_extend later.features_grow held shown, rfl⟩
  record {start} event event' := replays_record start event event'

/-! ## The engine -/

theorem replays_report (loud : ¬quiet) (start : Stage) (issue : Issue) (span : Span) :
    Replays quiet start (report issue span) (report issue span) (replay quiet).Agrees := by
  refine replays_bind (replays_record start _ _) ?_
  intro stage _ _ _ _ _ _ _ run
  obtain ⟨_, rfl⟩ := EStateM.Result.ok.inj run
  let after := { stage.checker with reports := stage.checker.reports.push ⟨issue, span⟩ }
  have sustains : stage.checker.Sustains quiet after :=
    { Persists.refl stage.checker with
      reported := fun _ => by simp [after]
      features_eq := rfl
      reports_kept := by simp [after]
      reports_eq := fun isQuiet => absurd isQuiet loud }
  let stop : Stage := ⟨after, ⟨stage.sound.types_canonical, stage.sound.features_wellFormed⟩,
    fun on => { stage.sound.memos_stored on with }⟩
  refine ⟨stop, rfl, sustains, fun again later => ⟨(), _, rfl, ?_, rfl⟩⟩
  have reported := later.reported (by simp)
  exact { Rests.refl again.checker with reported_iff := by simp [reported] }

theorem isOpen_of_formalOf? {checker after : Checker} (closed : checker.features.FormalsClosed)
    {ty : TypeId} {formal : Formal} (run : (formalOf? ty).run checker = .ok (some formal) after) :
    formal.isOpen = false := by
  obtain ⟨id, _, runId, run⟩ := exists_of_run_bind run
  obtain ⟨_, rfl⟩ := EStateM.Result.ok.inj runId
  cases id with
  | none => cases run
  | some id =>
    change (readFeatures _).run checker = _ at run
    rw [run_readFeatures] at run
    cases found : checker.features.formal? id with
    | error failure => simp [found, answer] at run
    | ok formal' =>
      simp only [found, answer, EStateM.Result.ok.injEq] at run
      obtain ⟨declared, declaredFound, result⟩ := except_bind_eq_ok (run.1 ▸ found)
      exact closed id.feature declared declaredFound formal
        (List.mem_of_getElem? (Except.ok.inj result))

theorem replays_ensureNotOpen (start : Stage) {ty ty' : TypeId}
    (tySame : (replay quiet).same start ty ty') :
    Replays quiet start (ensureNotOpen ty) (ensureNotOpen ty') (replay quiet).Agrees := by
  by_cases isQuiet : quiet
  · refine fun closed => replays_bind (replays_noting (core.formalOf? tySame)) ?_ closed
    rintro stage formal formal' _ ⟨related, after, run⟩
    cases related with
    | none => exact core.pure rfl
    | some related =>
      simp only [related.isOpen_eq, isOpen_of_formalOf? (closed isQuiet) run]
      exact core.pure rfl
  · exact core.ensureNotOpen tySame (replays_report isQuiet)

theorem replays_expect (start : Stage) (what : Invariant) (holds : Bool) :
    Replays quiet start (expect what holds) (expect what holds) (replay quiet).Agrees := by
  cases holds with
  | true => exact core.pure rfl
  | false =>
    refine replays_rest ?_
    intro _ after run
    have goesOn : ∀ checker : Checker,
        0 < checker.reports.size ∨ checker.options.strict = false →
          ∃ idle, (expect what false).run checker = .ok () idle ∧ checker.Rests idle ∧
            idle.reports = checker.reports := by
      intro checker waived
      rw [run_expect]
      by_cases reported : 0 < checker.reports.size
      · rw [if_neg Bool.false_ne_true, if_pos reported]
        exact Rests.record checker _
      · rw [if_neg Bool.false_ne_true, if_neg reported,
          if_neg (by simp [waived.resolve_left reported])]
        exact Rests.record checker _
    have waived : 0 < start.checker.reports.size ∨ start.checker.options.strict = false := by
      by_contra broken
      rw [not_or, Bool.not_eq_false] at broken
      rw [run_expect, if_neg Bool.false_ne_true, if_neg broken.1, if_pos broken.2] at run
      cases run
    obtain ⟨after', run', idle, reportsEq⟩ := goesOn start.checker waived
    obtain ⟨_, rfl⟩ := EStateM.Result.ok.inj (run'.symm.trans run)
    refine ⟨idle, reportsEq, fun again later => ?_⟩
    have waivedAgain : 0 < again.checker.reports.size ∨
        again.checker.options.strict = false := by
      rw [later.options_eq]
      exact waived.imp_left later.reported
    obtain ⟨idle', runs, idles, _⟩ := goesOn again.checker waivedAgain
    exact ⟨(), idle', runs, idles, fun _ _ => rfl⟩

theorem replays_recordEntry (start : Stage) (check : Check) {ty ty' : TypeId}
    (tySame : (replay quiet).same start ty ty') :
    Replays quiet start (recordEntry check ty) (recordEntry check ty') (replay quiet).Agrees := by
  have entered : Replays quiet start (do record (.entered check (← display ty)))
      (do record (.entered check (← display ty'))) (replay quiet).Agrees :=
    core.bind_agrees (core.display tySame) fun stage text _ => core.record _ _
  intro closed result after run
  simp only [recordEntry, EStateM.run_bind, EStateM.run_get] at run ⊢
  cases recording : start.checker.journal.recording with
  | true =>
    rw [recording] at run
    obtain ⟨stop, stopEq, sustains, again⟩ := entered closed result after run
    refine ⟨stop, stopEq, sustains, fun stage later => ?_⟩
    have recordingAgain := (sustains.toPersists.trans later).recording_eq.trans recording
    simp only [recordingAgain]
    exact again stage later
  | false =>
    rw [recording] at run
    obtain ⟨_, rfl⟩ := EStateM.Result.ok.inj run
    refine ⟨start, rfl, .refl _, fun stage later => ?_⟩
    simp only [later.recording_eq.trans recording]
    exact ⟨(), stage.checker, rfl, .refl _, rfl⟩

/-- `recalled` is what the memo table has for the computed type. -/
theorem replays_memoized {known : CheckM (Option TypeId)} {remember : TypeId → CheckM Unit}
    {compute compute' : CheckM TypeId} (recalled : Checker → Option TypeId)
    (recalls : ∀ checker, ∃ counted,
      known.run checker = .ok (recalled checker) counted ∧ checker.Rests counted ∧
        counted.reports = checker.reports)
    (kept : ∀ checker later result, checker.options.memoize = true → checker.Persists later →
      recalled checker = some result → recalled later = some result)
    (stored : ∀ checker result, checker.MemosStored → recalled checker = some result →
      checker.types.Holds result)
    (remembers : ∀ (stage : Stage) result, recalled start.checker = none →
      start.checker.Sustains quiet stage.checker → stage.checker.types.Holds result →
        ∃ stop : Stage, (remember result).run stage.checker = .ok () stop.checker ∧
          start.checker.Sustains quiet stop.checker ∧ recalled stop.checker = some result ∧
            stop.checker.types = stage.checker.types)
    (coupled : ∀ stage, (replay quiet).later start stage →
      Replays quiet stage compute compute' (replay quiet).same) :
    Replays quiet start (memoized known remember compute) (memoized known remember compute')
      (replay quiet).same := by
  intro closed result after run
  cases flag : start.checker.options.memoize with
  | false =>
    rw [run_memoized_off flag] at run
    obtain ⟨stop, stopEq, sustains, again⟩ := coupled start (.refl _) closed result after run
    refine ⟨stop, stopEq, sustains, fun stage later => ?_⟩
    rw [run_memoized_off ((sustains.toPersists.trans later).memoize_eq.trans flag)]
    exact again stage later
  | true =>
    -- A remembered result is still remembered when the operation is run again.
    have hit : ∀ checker found, start.checker.Persists checker →
        recalled checker = some found → ∃ idle,
          (memoized known remember compute').run checker = .ok found idle ∧
            checker.Rests idle := by
      intro checker found persists isFound
      obtain ⟨counted, runKnown, rests, _⟩ := recalls checker
      refine ⟨counted, ?_, rests⟩
      rw [run_memoized_on (persists.memoize_eq.trans flag), EStateM.run_bind, runKnown, isFound]
      rfl
    obtain ⟨counted, runKnown, rests, reportsEq⟩ := recalls start.checker
    have counts : start.checker.Sustains quiet counted := rests.sustains reportsEq
    rw [run_memoized_on flag, EStateM.run_bind, runKnown] at run
    cases found : recalled start.checker with
    | some remembered =>
      rw [found] at run
      obtain ⟨rfl, rfl⟩ := EStateM.Result.ok.inj run
      refine ⟨⟨counted, rests.sound start.sound⟩, rfl, counts, fun stage later => ?_⟩
      have persists := rests.persists.trans later
      obtain ⟨idle, run', rests'⟩ :=
        hit stage.checker remembered persists (kept _ _ _ flag persists found)
      have held := stored _ _ (start.sound.memos_stored flag) found
      exact ⟨remembered, idle, run', rests', rfl, rests.persists.types_extend.holds held⟩
    | none =>
      rw [found] at run
      obtain ⟨value, middle, computed, run⟩ := exists_of_run_bind run
      obtain ⟨middle, rfl, sustains, again⟩ := coupled ⟨counted, rests.sound start.sound⟩
        rests.persists (by rwa [counts.features_eq]) value _ computed
      obtain ⟨value, _, _, _, rfl, held⟩ := again middle (.refl _)
      obtain ⟨stop, runRemember, sustains', isFound, typesEq⟩ :=
        remembers middle value found (counts.trans sustains) held
      have persists' := sustains'.toPersists
      simp only [EStateM.run_bind, runRemember] at run
      obtain ⟨rfl, rfl⟩ := EStateM.Result.ok.inj run
      refine ⟨stop, rfl, sustains', fun stage later => ?_⟩
      obtain ⟨idle, run', rests'⟩ := hit stage.checker value (persists'.trans later)
        (kept _ _ _ (persists'.memoize_eq.trans flag) later isFound)
      refine ⟨value, idle, run', rests', rfl, ?_⟩
      rw [typesEq]
      exact held

/-- Whatever the engine does can be replayed. -/
theorem engine : (replay quiet).Engine where
  toCore := core
  exhausted _ _ _ run := by cases run
  limit {_ _ start operation operation' _} coupled := by
    intro closed result after run
    rw [run_withinLimit] at run
    obtain ⟨stop, stopEq, sustains, again⟩ := coupled _ closed result after run
    refine ⟨stop, stopEq, sustains, fun stage later => ?_⟩
    rw [run_withinLimit, (sustains.toPersists.trans later).options_eq]
    exact again stage later
  ensureNotOpen {start _ _} tySame := replays_ensureNotOpen start tySame
  expect {start} what holds := replays_expect start what holds
  recordEntry {start _ _} check tySame := replays_recordEntry start check tySame
  byOwner {start _ _ owner actuals _ target _} _ actualsSame targetSame coupled := by
    obtain ⟨rfl, _⟩ := TypeStore.forall₂_shares_iff.mp actualsSame
    obtain ⟨rfl, _⟩ := targetSame
    refine replays_memoized
      (fun checker => checker.byOwner.entries[(⟨_, owner, _⟩ : SubstitutionKey)]?)
      (fun checker => ⟨_, run_recallByOwner _ _,
        { Rests.refl checker with byOwner_eq := Memo.consult_entries _ _ }, rfl⟩)
      (fun _ _ _ on persists => persists.byOwner_kept on _ _)
      (fun _ _ stored => stored.byOwner_held _ _) ?_ coupled
    intro stage result missing sustains held
    exact ⟨⟨_, stage.sound.rememberByOwner held _⟩, rfl,
      { sustains with toPersists := sustains.toPersists.rememberByOwner missing result },
      Memo.remember_self _ _ _, rfl⟩
  viaType {start _ _ source _ target _} _ sourceSame targetSame coupled := by
    obtain ⟨rfl, _⟩ := sourceSame
    obtain ⟨rfl, _⟩ := targetSame
    refine replays_memoized (fun checker => checker.viaType.entries[(⟨_, _⟩ : ViewKey)]?)
      (fun checker => ⟨_, run_recallViaType _ _,
        { Rests.refl checker with viaType_eq := Memo.consult_entries _ _ }, rfl⟩)
      (fun _ _ _ on persists => persists.viaType_kept on _ _)
      (fun _ _ stored => stored.viaType_held _ _) ?_ coupled
    intro stage result missing sustains held
    exact ⟨⟨_, stage.sound.rememberViaType held _⟩, rfl,
      { sustains with toPersists := sustains.toPersists.rememberViaType missing result },
      Memo.remember_self _ _ _, rfl⟩

theorem reporting : (replay False).Reporting where
  toEngine := engine
  report {start} issue span := replays_report id start issue span

/-- A run that can be replayed keeps the features, and the checker sound. -/
theorem sustains_of_run {α β : Type} {checker after : Checker} {operation : CheckM α}
    {operation' : CheckM β} {relation : Stage → α → β → Prop} {result : α}
    (sound : checker.Sound)
    (coupled : Replays False ⟨checker, sound⟩ operation operation' relation)
    (run : operation.run checker = .ok result after) :
    after.Sound ∧ checker.Sustains False after := by
  obtain ⟨stop, rfl, sustains, _⟩ := coupled False.elim result after run
  exact ⟨stop.sound, sustains⟩

/-- In a checker without open formals the engine reports nothing. -/
theorem reports_eq_of_run {α β : Type} {checker after : Checker} {operation : CheckM α}
    {operation' : CheckM β} {relation : Stage → α → β → Prop} {result : α}
    (sound : checker.Sound) (closed : checker.features.FormalsClosed)
    (coupled : Replays True ⟨checker, sound⟩ operation operation' relation)
    (run : operation.run checker = .ok result after) : after.reports = checker.reports := by
  obtain ⟨stop, rfl, sustains, _⟩ := coupled (fun _ => closed) result after run
  exact sustains.reports_eq trivial

end Replay

end FeatureTypes

import Mathlib.Order.Filter.AtTopBot.Basic
import FeatureTypes.Proofs.Feature.Grounded
import FeatureTypes.Proofs.Meaning.History
import FeatureTypes.Proofs.Memo.Simulation

/-!
# Substitutions without obstacles

Where the actuals fit and every formal has its actual, nothing keeps a substitution from
coming to a result: every checker that goes by the declarations carries it out, if it allows
for enough depth.
-/

namespace FeatureTypes

open Filter

namespace Checker

/-! ## Checkers with sound memo tables -/

variable {checker later : Checker}

theorem Follows.obeys_unmemoized {signature : Signature} (follows : checker.Follows signature)
    (wellFormed : checker.WellFormed) : checker.unmemoized.Obeys signature :=
  ⟨wellFormed.unmemoized, follows.of_eq rfl rfl, fun on => absurd on Bool.false_ne_true⟩

theorem WellFormed.faithful_unmemoized (wellFormed : checker.WellFormed) :
    checker.unmemoized.Faithful := fun _ follows =>
  Follows.obeys_unmemoized (follows.of_eq rfl rfl) wellFormed

/-- Memo tables are faithful if what they hold comes out again when worked out anew. -/
theorem WellFormed.faithful_of_sound (wellFormed : checker.WellFormed)
    (sound : checker.options.memoize = true → Lockstep.MemosSound checker) : checker.Faithful := by
  intro signature follows
  have obeys := follows.obeys_unmemoized wellFormed
  refine ⟨wellFormed, follows, fun on => ⟨?_, ?_⟩⟩
  · intro key result found
    obtain ⟨held, depth, after, run, idle⟩ := (sound on).byOwner_sound key result found
    rw [List.forall_mem_cons] at held
    have denote : List.Forall₂ checker.types.Denotes key.actuals
        (key.actuals.map checker.types.tree) :=
      TypeStore.Denotes.forall₂_iff.mpr ⟨held.2, rfl⟩
    obtain ⟨_, _, value, prescribed, resultDenotes⟩ :=
      (means_substituteStep depth obeys ⟨held.1, rfl⟩ key.owner denote).finds result after run
    rw [idle.types_eq] at resultDenotes
    exact ⟨_, _, value, denote, ⟨held.1, rfl⟩, resultDenotes, prescribed⟩
  · intro key result found
    obtain ⟨held, depth, after, run, idle⟩ := (sound on).viaType_sound key result found
    simp only [List.forall_mem_cons] at held
    obtain ⟨_, _, value, prescribed, resultDenotes⟩ :=
      (means_viewStep depth obeys ⟨held.2.1, rfl⟩ ⟨held.1, rfl⟩).finds result after run
    rw [idle.types_eq] at resultDenotes
    exact ⟨_, _, value, ⟨held.1, rfl⟩, ⟨held.2.1, rfl⟩, resultDenotes, prescribed⟩

theorem WellFormed.signature_eq_of_onward (wellFormed : checker.WellFormed)
    (coherent : later.types.Coherent) (onward : checker.Onward later) :
    later.signature = checker.signature := by
  have outlines : ∀ id, (checker.features.get id).toOption.map
      (Feature.outline later.types.tree) =
        (checker.features.get id).toOption.map (Feature.outline checker.types.tree) := by
    intro id
    cases found : checker.features.get id with
    | error failure => rfl
    | ok declared =>
      exact congrArg some (outline_eq_of_extends wellFormed.types_canonical.toCoherent coherent
        onward.types_extend (wellFormed.features_wellFormed id declared found))
  simp only [signature, onward.features_eq, outlines]

/-! ## Smooth runs -/

/-- The checker goes by the declarations of `start`.  Since `origin` it has reported nothing
and noted only substitutions, unless the error type may be made, and it has made no types,
unless there are types that may be made. -/
structure Resumes (start : Checker) (admits : Ty → Prop) (origin checker : Checker) : Prop extends
    checker.Obeys start.signature where
  features_eq : checker.features = start.features
  quiet : ¬admits .error → checker.reports = origin.reports ∧
    ∃ events, checker.journal.events = events ++ origin.journal.events ∧
      ∀ event ∈ events, ∃ target owner, event = .substituting target owner
  frozen : (∀ ty, ¬admits ty) → checker.types = origin.types

/-- The operations have to succeed where they have a meaning. -/
def Terms.smooth (start : Checker) (admits : Ty → Prop) (origin : Checker) :
    Terms start.signature where
  strict := True
  accepts := start.features.Accepts
  admits := admits
  invariant := start.Resumes admits origin
  excuses _ := False
  lenient := True
  obeys resumes := resumes.toObeys
  unknown {_ id _} resumes unknown := by
    rw [resumes.features_eq] at unknown
    exact .inl (by simp [signature, unknown, Except.toOption])
  unrelated resumes unrelated := by
    rw [resumes.features_eq] at unrelated
    exact .inl (by simp [signature, unrelated, Except.toOption])
  accepted _ _ _ _ resumes := by
    rw [resumes.features_eq]
    exact id
  unlimited := .inl trivial
  excused lax := absurd trivial lax
  quiet resumes obeys onward typesEq reportsEq noted := by
    refine ⟨obeys, onward.features_eq.trans resumes.features_eq, fun silent => ?_,
      fun frozen => typesEq.trans (resumes.frozen frozen)⟩
    obtain ⟨reportsEq', events, eventsEq, notes⟩ := resumes.quiet silent
    refine ⟨reportsEq.trans reportsEq', ?_⟩
    rcases noted with same | ⟨target, owner, noted⟩
    · exact ⟨events, same.trans eventsEq, notes⟩
    · refine ⟨.substituting target owner :: events, by rw [noted, eventsEq]; rfl, ?_⟩
      exact List.forall_mem_cons.mpr ⟨⟨target, owner, rfl⟩, notes⟩
  loud loud _ _ resumes obeys onward typesEq :=
    ⟨obeys, onward.features_eq.trans resumes.features_eq, absurd loud,
      fun frozen => absurd loud (frozen _)⟩
  made admitted resumes _ obeys :=
    ⟨obeys, resumes.features_eq, resumes.quiet, fun frozen => absurd admitted (frozen _)⟩

theorem Resumes.of_faithful {start checker : Checker} (typesEq : checker.types = start.types)
    (featuresEq : checker.features = start.features) (faithful : checker.Faithful)
    (admits : Ty → Prop) : start.Resumes admits checker checker where
  toObeys := faithful _ (start.follows_signature.of_eq typesEq featuresEq)
  features_eq := featuresEq
  quiet _ := ⟨rfl, [], rfl, by simp⟩
  frozen _ := rfl

theorem Faithful.resumes (faithful : checker.Faithful) (depthLimit : Nat) (admits : Ty → Prop) :
    checker.Resumes admits (checker.limited depthLimit) (checker.limited depthLimit) :=
  @Resumes.of_faithful checker (checker.limited depthLimit) rfl rfl (faithful.limited _) admits

section

variable {start origin checker : Checker} {admits : Ty → Prop}

/-- What has a value comes to a result. -/
theorem Realizes.exists_run {α β : Type} {operation : CheckM α} {value : β}
    {related : Checker → α → β → Prop}
    (realizes : Realizes (.smooth start admits origin) checker operation (some value) related) :
    ∃ result after, operation.run checker = .ok result after ∧
      start.Resumes admits origin after ∧ checker.Onward after ∧ related after result value := by
  cases run : operation.run checker with
  | error failure after =>
    rcases realizes.2 failure after run with isNone | excused
    · cases isNone
    · exact excused.elim
  | ok result after =>
    rcases realizes.1 result after run with ⟨_, isNone⟩ | ⟨resumes, onward, _, isValue, good⟩
    · cases isNone
    · obtain rfl := Option.some.inj isValue
      exact ⟨result, after, rfl, resumes, onward, good⟩

/-! ## Smooth substitutions -/

/-- What is demanded of a smooth substitution. -/
def demands (start : Checker) (admits : Ty → Prop) : Demands :=
  ⟨True, start.features.Accepts, admits⟩

/-- What becomes of a substitution that runs into no obstacle. -/
noncomputable def smooth (start : Checker) (admits : Ty → Prop) :
    (owner : FeatureId) → (actuals : List Ty) → (target : Ty) → Option Ty :=
  start.signature.substituteUnder (start.demands admits)

/-- What becomes of a substitution that runs into no obstacle within the depth. -/
noncomputable def smoothWithin (start : Checker) (admits : Ty → Prop) :
    (depth : Nat) → (owner : FeatureId) → (actuals : List Ty) → (target : Ty) → Option Ty :=
  start.signature.substituteWithin (start.demands admits)

theorem deepens_smooth : Deepens (.smooth start admits origin) (start.smoothWithin admits) :=
  deepens_within _ trivial

theorem serves_smooth (depth : Nat) : Serves (.smooth start admits origin) (substituteWithin depth)
    (start.smoothWithin admits depth) :=
  serves_substituteWithin _ deepens_smooth depth

theorem realizes_substitute (owner : FeatureId) (resumes : start.Resumes admits origin checker)
    {actuals : List TypeId} {actuals' : List Ty} {target : TypeId} {target' : Ty}
    (denote : List.Forall₂ checker.types.Denotes actuals actuals')
    (denotes : checker.types.Denotes target target') :
    Realizes (.smooth start admits origin) checker (substitute owner actuals target)
      (start.smoothWithin admits checker.options.depthLimit owner actuals' target') fun after =>
        after.types.Denotes :=
  .look (EStateM.run_get checker) (serves_smooth _ owner resumes denote denotes)

/-- What smooth substitutions settle, they settle within every large depth. -/
theorem eventually_settled {α : Type}
    {expression : (FeatureId × List Ty × Ty → Option Ty) → Option α}
    (finitary : Finitary expression) {value : α}
    (settled : expression (fun input => start.smooth admits input.1 input.2.1 input.2.2) =
      some value) :
    ∀ᶠ depth in atTop, expression (fun input =>
      start.smoothWithin admits depth input.1 input.2.1 input.2.2) = some value := by
  have finitaryEquation := start.signature.finitary_equationUnder (start.demands admits)
  obtain ⟨inputs, keeps⟩ := finitary _ value settled
  obtain ⟨enough, settles⟩ := exists_depth finitaryEquation inputs
  filter_upwards [eventually_ge_atTop enough] with depth deep
  exact keeps _ fun input member output isOutput =>
    unfolding_of_le finitaryEquation deep (settles input member output isOutput)

/-- A smooth substitution is carried out within every large depth. -/
theorem eventually_substitute {owner : FeatureId} {actuals : List Ty} {target result : Ty}
    (settled : start.smooth admits owner actuals target = some result) :
    ∀ᶠ depth in atTop, ∀ {origin checker : Checker}, start.Resumes admits origin checker →
      ∀ {actualIds : List TypeId} {targetId : TypeId},
        List.Forall₂ checker.types.Denotes actualIds actuals →
        checker.types.Denotes targetId target →
          Realizes (.smooth start admits origin) checker
            (substituteWithin depth owner actualIds targetId) (some result) fun after =>
              after.types.Denotes := by
  filter_upwards [eventually_settled (.call (owner, actuals, target)) settled] with depth settled
  intro origin checker resumes actualIds targetId actualsDenote denotes
  rw [← settled]
  exact serves_smooth depth owner resumes actualsDenote denotes

/-! ## Smooth views -/

/-- The type `target` as seen from `source`, where nothing is in the way within the depth. -/
noncomputable def smoothViaWithin (start : Checker) (admits : Ty → Prop) :
    (depth : Nat) → (source target : Ty) → Option Ty :=
  start.signature.viewWithin (start.demands admits)

theorem substituteVia_of_smooth {depth : Nat} {source target value : Ty}
    (settled : start.smoothViaWithin admits depth source target = some value) :
    start.signature.substituteVia source target = some value :=
  Signature.substituteVia_of_viewWithin settled

section

variable (resumes : start.Resumes admits origin checker) {source target : TypeId}
  {source' target' : Ty} (sourceDenotes : checker.types.Denotes source source')
  (denotes : checker.types.Denotes target target')

include resumes sourceDenotes denotes

theorem realizes_smoothViaWithin (depth : Nat) :
    Realizes (.smooth start admits origin) checker (substituteViaWithin depth source target)
      (start.smoothViaWithin admits depth source' target') fun after => after.types.Denotes :=
  realizes_viewWithin _ trivial depth resumes sourceDenotes denotes

theorem realizes_substituteVia :
    Realizes (.smooth start admits origin) checker (substituteVia source target)
      (start.smoothViaWithin admits checker.options.depthLimit source' target') fun after =>
        after.types.Denotes :=
  .look (EStateM.run_get checker) (realizes_smoothViaWithin resumes sourceDenotes denotes _)

end

/-! ## One step -/

variable {owner : FeatureId} {declared : Feature} {actuals : List Ty} {target ty : Ty}

theorem substitute_of_smooth (settled : start.smooth admits owner actuals target = some ty) :
    start.signature.substitute owner actuals target = some ty :=
  Signature.substitute_of_under settled

theorem smooth_of_closed (accepts : start.features.Accepts owner actuals.length)
    (closed : target.mentionsFormal = false) :
    start.smooth admits owner actuals target = some target :=
  Signature.substituteUnder_of_closed (fun _ => accepts) closed

theorem eventually_smoothVia (settled : start.smooth admits owner actuals target = some ty)
    {outer : Option Ty} {value : Ty}
    (fromOuter : outer.elim (value = ty) fun around =>
      ∀ᶠ depth in atTop, start.smoothViaWithin admits depth around ty = some value)
    (isRef isThis : Bool) :
    ∀ᶠ depth in atTop, start.smoothViaWithin admits depth
      (.applied owner actuals outer isRef isThis) target = some value := by
  have settled' := eventually_settled (.call (owner, actuals, target)) settled
  rw [← map_add_atTop_eq_nat 1, eventually_map]
  cases mentions : target.mentionsFormal with
  | false =>
    have prescribed := substitute_of_smooth settled
    rw [Signature.substitute_of_closed mentions] at prescribed
    obtain rfl := Option.some.inj prescribed
    have valueEq : value = target := by
      cases outer with
      | none => exact fromOuter
      | some around =>
        obtain ⟨depth, settled⟩ := fromOuter.exists
        have prescribed := substituteVia_of_smooth settled
        rw [Signature.substituteVia_of_closed mentions] at prescribed
        exact (Option.some.inj prescribed).symm
    refine .of_forall fun depth => ?_
    simp [smoothViaWithin, Signature.viewWithin, mentions, valueEq]
  | true =>
    cases outer with
    | none =>
      obtain rfl : value = ty := fromOuter
      filter_upwards [settled'] with depth settled
      rw [smoothViaWithin, Signature.viewWithin, if_neg (by simp [mentions]), Signature.viewStepBy,
        ← smoothWithin, settled]
      rfl
    | some around =>
      filter_upwards [settled', fromOuter] with depth settled fromOuter
      rw [smoothViaWithin, Signature.viewWithin, if_neg (by simp [mentions]), Signature.viewStepBy,
        ← smoothWithin, settled]
      exact fromOuter

theorem foldlM_eq_some_self {α β : Type} {step : β → α → Option β} {list : List α} {state : β}
    (keeps : ∀ item ∈ list, step state item = some state) :
    list.foldlM step state = some state := by
  induction list with
  | nil => rfl
  | cons item rest ih =>
    rw [List.forall_mem_cons] at keeps
    rw [List.foldlM_cons, keeps.1]
    exact ih keeps.2

section

variable (found : start.features.get owner = .ok declared)

include found

theorem smooth_of_open (fits : declared.accepts actuals.length = true)
    (mentions : target.mentionsFormal = true)
    (fromParents : declared.parents.foldlM (fun ty parent =>
      start.smooth admits parent.ancestor (parent.actuals.map start.types.tree) ty) target =
        some ty) :
    start.smooth admits owner actuals target =
      start.signature.ownUnder (start.demands admits) (start.smooth admits) owner actuals ty := by
  have accepted : (start.demands admits).accepts owner actuals.length := ⟨declared, found, fits⟩
  rw [smooth, Signature.substituteUnder_of_open (fun _ => accepted) mentions,
    Signature.stepUnder, start.follows_signature.feature_eq owner declared found]
  simp only [Feature.outline, List.foldlM_map, Option.bind_eq_bind, Option.bind_some]
  rw [← smooth, fromParents]
  rfl

theorem signature_formal? {id : FormalId} (belongs : id.feature = owner) :
    start.signature.formal? id = some (declared.formals[id.index]?.map fun formal =>
      ⟨formal.id, formal.isOpen, start.types.tree formal.constraint⟩) := by
  rw [Signature.formal?, belongs, start.follows_signature.feature_eq owner declared found]
  simp [Feature.outline]

theorem formalUnder_of_closed {id : FormalId} (belongs : id.feature = owner) {formal : Formal}
    (present : declared.formals[id.index]? = some formal) (closed : formal.isOpen = false)
    {actual : Ty} (isActual : actuals[id.index]? = some actual) (boxed : Bool) :
    start.signature.formalUnder (start.demands admits) owner actuals id boxed =
      if boxed then (start.demands admits).replace (.formal id boxed) actual.asRef
      else some actual := by
  have strict : (start.demands admits).strict := trivial
  rw [Signature.formalUnder, if_neg (by simp [belongs]), Signature.closedUnder,
    signature_formal? found belongs, present]
  simp only [Option.map_some, Option.any_some, closed, Bool.false_eq_true, if_false,
    Option.bind_eq_bind, Option.bind_some, Signature.actualUnder, if_pos strict, isActual,
    Option.pure_def, Bool.not_true]

end

theorem argsUnder_of_plain {demands : Demands}
    {call : (owner : FeatureId) → (actuals : List Ty) → (target : Ty) → Option Ty}
    {feature : FeatureId} (plain : start.features.DeclaresPlain feature) (args : List Ty) :
    start.signature.argsUnder demands call feature args = some args := by
  obtain ⟨declared, found, notCompanion⟩ := plain
  have noOrigin : declared.origin = none := by simpa [Feature.isCompanion] using notCompanion
  have outline := start.follows_signature.feature_eq feature declared found
  rw [Signature.argsUnder, if_pos, Signature.settleArgs.eq_def, outline]
  · simp only [Feature.outline, noOrigin, Option.isNone_none, Option.bind_eq_bind,
      Option.bind_some, if_true]
    rfl
  · rw [outline]
    exact .inr fun _ isOutline => (Option.some.inj isOutline) ▸ noOrigin

end

end Checker

end FeatureTypes

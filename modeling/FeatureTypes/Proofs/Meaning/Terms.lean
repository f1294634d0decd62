import FeatureTypes.Proofs.Meaning.Demands
import FeatureTypes.Proofs.Meaning.Run

/-!
# Runs that realize a meaning

An operation realizes a meaning if it comes to a result just where the meaning has a value,
and the result stands for that value.  Terms say how far an operation is held to this.
-/

namespace FeatureTypes

variable {edit : TypeStore → TypeId × TypeStore} {ty : Ty}

theorem TypeStore.makes_asThis {store : TypeStore} (canonical : store.Canonical) {id : TypeId}
    (denotes : store.Denotes id ty) : store.Makes ty.asThis (store.asThis id) := by
  have coherent := canonical.toCoherent
  have toTy_asThis : ∀ layer : Node,
      layer.asThis.toTy store.tree = (layer.toTy store.tree).asThis := by
    intro layer
    cases layer <;> rfl
  have children_asThis : ∀ layer : Node, layer.asThis.children = layer.children := by
    intro layer
    cases layer <;> rfl
  rw [← denotes.layer coherent, ← toTy_asThis]
  refine makes_change canonical denotes.1 ?_
  rw [HoldsParts, children_asThis]
  exact fun child => coherent.child_holds denotes.1

namespace Checker

/-- What operations are held to in checkers that obey the signature. -/
structure Terms (signature : Signature) extends Demands where
  /-- What holds of the checkers on the way. -/
  invariant : Checker → Prop
  /-- The failures that may happen where there is a meaning. -/
  excuses : Failure → Prop
  /-- Results are let pass where there is no meaning. -/
  lenient : Prop
  obeys : ∀ {checker : Checker}, invariant checker → checker.Obeys signature
  unknown : ∀ {checker : Checker} {id : FeatureId} {failure : Failure}, invariant checker →
    checker.features.get id = .error failure → signature.feature id = none ∨ excuses failure
  unrelated : ∀ {checker : Checker} {heir ancestor : FeatureId} {failure : Failure},
    invariant checker → checker.features.inheritsFrom heir ancestor = .error failure →
      signature.inherits heir ancestor = none ∨ excuses failure
  accepted : strict → ∀ {checker : Checker} {owner : FeatureId} {count : Nat},
    invariant checker → accepts owner count →
      ∃ declared, checker.features.get owner = .ok declared ∧ declared.accepts count = true
  unlimited : lenient ∨ ¬strict ∧ ∀ ty, admits ty
  excused : ¬strict → admits .error ∧ ∀ failure, failure ≠ .depthExceeded → excuses failure
  quiet : ∀ {checker later : Checker}, invariant checker → later.Obeys signature →
    checker.Onward later → later.types = checker.types → later.reports = checker.reports →
      (later.journal.events = checker.journal.events ∨ ∃ target owner,
        later.journal.events = .substituting target owner :: checker.journal.events) →
      invariant later
  loud : admits .error → ∀ {checker later : Checker}, invariant checker →
    later.Obeys signature → checker.Onward later → later.types = checker.types → invariant later
  made : ∀ {checker : Checker} {made : TypeId × TypeStore} {ty : Ty}, admits ty →
    invariant checker → checker.types.Makes ty made →
      Obeys { checker with types := made.2 } signature → invariant { checker with types := made.2 }

/-- The operation comes to a result just where the meaning has a value, which is related to
the result, as far as it is held to this. -/
def Realizes {α β : Type} {signature : Signature} (terms : Terms signature) (checker : Checker)
    (operation : CheckM α) (meaning : Option β) (related : Checker → α → β → Prop) : Prop :=
  (∀ result after, operation.run checker = .ok result after →
    terms.lenient ∧ meaning = none ∨ terms.invariant after ∧ checker.Onward after ∧
      ∃ value, meaning = some value ∧ related after result value) ∧
  ∀ failure after, operation.run checker = .error failure after →
    meaning = none ∨ terms.excuses failure

variable {α β γ δ : Type} {signature : Signature} {terms : Terms signature} {checker : Checker}

namespace Terms

variable {later : Checker} (terms) (holds : terms.invariant checker)

include holds

theorem canonical : checker.types.Canonical :=
  (terms.obeys holds).types_canonical

theorem coherent : checker.types.Coherent :=
  (terms.canonical holds).toCoherent

theorem denotes_error : checker.types.Denotes .error .error :=
  .error (terms.canonical holds)

variable (holds' : terms.invariant later) (onward : checker.Onward later)

include holds' onward

theorem denotes {id : TypeId} (denotes : checker.types.Denotes id ty) :
    later.types.Denotes id ty :=
  (terms.obeys holds).denotes (terms.obeys holds') onward denotes

theorem denotesAll {ids : List TypeId} {tys : List Ty}
    (denote : List.Forall₂ checker.types.Denotes ids tys) :
    List.Forall₂ later.types.Denotes ids tys :=
  (terms.obeys holds).denotesAll (terms.obeys holds') onward denote

theorem denotesOption {outerId : Option TypeId} {outer : Option Ty}
    (denotes : Option.Rel checker.types.Denotes outerId outer) :
    Option.Rel later.types.Denotes outerId outer :=
  (terms.obeys holds).denotesOption (terms.obeys holds') onward denotes

end Terms

/-! ## Terms under which every failure is excused -/

/-- Checkers obey the signature, and any failure is excused. -/
def Terms.free (signature : Signature) : Terms signature where
  toDemands := .lax
  invariant := (·.Obeys signature)
  excuses _ := True
  lenient := False
  obeys := id
  unknown _ _ := .inr trivial
  unrelated _ _ := .inr trivial
  accepted strict := strict.elim
  unlimited := .inr ⟨id, fun _ => trivial⟩
  excused _ := ⟨trivial, fun _ _ => trivial⟩
  quiet _ obeys _ _ _ _ := obeys
  loud _ _ _ _ obeys _ _ := obeys
  made _ _ _ obeys := obeys

/-- Where the operation comes to a result, the meaning has a value, which is related to the
result. -/
def Means (signature : Signature) (checker : Checker) (operation : CheckM α) (meaning : Option β)
    (related : Checker → α → β → Prop) : Prop :=
  Realizes (.free signature) checker operation meaning related

/-- Where failures are excused, a result is the prescribed one all the same. -/
theorem Realizes.finds {operation : CheckM α} {meaning : Option β}
    {related : Checker → α → β → Prop}
    (realizes : Realizes (.free signature) checker operation meaning related) :
    Finds signature checker operation fun after result =>
      ∃ value, meaning = some value ∧ related after result value :=
  fun result after run => (realizes.1 result after run).resolve_left fun never => never.1.elim

theorem Means.of_finds {operation : CheckM α} {value : β} {related : Checker → α → β → Prop}
    (finds : Finds signature checker operation fun after result => related after result value) :
    Means signature checker operation (some value) related :=
  ⟨fun result after run => .inr ((finds result after run).imp_right
    fun ⟨onward, good⟩ => ⟨onward, value, rfl, good⟩), fun _ _ _ => .inr trivial⟩

namespace Realizes

theorem lenient (lenient : terms.lenient) {operation : CheckM α}
    {related : Checker → α → β → Prop} :
    Realizes terms checker operation none related :=
  ⟨fun _ _ _ => .inl ⟨lenient, rfl⟩, fun _ _ _ => .inl rfl⟩

theorem of_run {operation : CheckM α} {result : α} {after : Checker} {value : β}
    {related : Checker → α → β → Prop} (run : operation.run checker = .ok result after)
    (holds : terms.invariant after) (onward : checker.Onward after)
    (good : related after result value) :
    Realizes terms checker operation (some value) related := by
  refine ⟨fun result' after' run' => ?_, fun failure after' run' => by cases run.symm.trans run'⟩
  obtain ⟨rfl, rfl⟩ := EStateM.Result.ok.inj (run.symm.trans run')
  exact .inr ⟨holds, onward, value, rfl, good⟩

theorem pure {result : α} {value : β} {related : Checker → α → β → Prop}
    (holds : terms.invariant checker) (good : related checker result value) :
    Realizes terms checker (pure result) (some value) related :=
  .of_run rfl holds (.refl _) good

theorem of_error {operation : CheckM α} {meaning : Option β} {related : Checker → α → β → Prop}
    {failure : Failure} {after : Checker} (run : operation.run checker = .error failure after)
    (excused : meaning = none ∨ terms.excuses failure) :
    Realizes terms checker operation meaning related := by
  refine ⟨fun _ _ run' => (by cases run.symm.trans run'), fun failure' after' run' => ?_⟩
  obtain ⟨rfl, rfl⟩ := EStateM.Result.error.inj (run.symm.trans run')
  exact excused

/-- Operations in a row realize their meanings in a row. -/
theorem bind {operation : CheckM α} {next : α → CheckM γ} {meaning : Option β}
    {next' : β → Option δ} {related : Checker → α → β → Prop} {related' : Checker → γ → δ → Prop}
    (first : Realizes terms checker operation meaning related)
    (rest : ∀ after result value, terms.invariant after → checker.Onward after →
      related after result value → Realizes terms after (next result) (next' value) related') :
    Realizes terms checker (operation >>= next) (meaning >>= next') related' := by
  constructor
  · intro result after run
    obtain ⟨between, stop, run₁, run₂⟩ := exists_of_run_bind run
    rcases first.1 between stop run₁ with ⟨lenient, rfl⟩ | ⟨holds, onward, value, rfl, good⟩
    · exact .inl ⟨lenient, rfl⟩
    · exact ((rest stop between value holds onward good).1 result after run₂).imp_right
        fun ⟨holds', onward', final⟩ => ⟨holds', onward.trans onward', final⟩
  · intro failure after run
    rcases cases_of_run_bind_error run with run₁ | ⟨between, stop, run₁, run₂⟩
    · exact (first.2 failure after run₁).imp_left fun isNone => by rw [isNone]; rfl
    · rcases first.1 between stop run₁ with ⟨_, rfl⟩ | ⟨holds, onward, value, rfl, good⟩
      · exact .inl rfl
      · exact (rest stop between value holds onward good).2 failure after run₂

theorem noting {operation : CheckM α} {meaning : Option β} {related : Checker → α → β → Prop}
    (realizes : Realizes terms checker operation meaning related) :
    Realizes terms checker operation meaning fun after result value =>
      meaning = some value ∧ related after result value :=
  ⟨fun result after run => (realizes.1 result after run).imp_right
    fun ⟨holds, onward, value, isValue, good⟩ =>
      ⟨holds, onward, value, isValue, isValue, good⟩, realizes.2⟩

theorem follow {operation : CheckM α} {next : α → CheckM γ} {meaning : Option δ} {value : β}
    {related : Checker → α → β → Prop} {related' : Checker → γ → δ → Prop}
    (first : Realizes terms checker operation (some value) related)
    (rest : ∀ after result, terms.invariant after → checker.Onward after →
      related after result value → Realizes terms after (next result) meaning related') :
    Realizes terms checker (operation >>= next) meaning related' := by
  change Realizes terms checker _ (some value >>= fun _ => meaning) related'
  refine .bind first.noting ?_
  rintro after result _ holds onward ⟨isValue, good⟩
  obtain rfl := Option.some.inj isValue
  exact rest after result holds onward good

/-- A look-up adds nothing to the meaning. -/
theorem look {operation : CheckM α} {next : α → CheckM γ} {meaning : Option δ} {result : α}
    {related : Checker → γ → δ → Prop} (run : operation.run checker = .ok result checker)
    (rest : Realizes terms checker (next result) meaning related) :
    Realizes terms checker (operation >>= next) meaning related := by
  unfold Realizes
  rw [EStateM.run_bind, run]
  exact rest

theorem congr {operation operation' : CheckM α} {meaning : Option β}
    {related : Checker → α → β → Prop} (alike : operation.run checker = operation'.run checker)
    (realizes : Realizes terms checker operation' meaning related) :
    Realizes terms checker operation meaning related := by
  unfold Realizes
  rw [alike]
  exact realizes

theorem known {operation : CheckM α} {result : α} {value : β} {related : Checker → α → β → Prop}
    (holds : terms.invariant checker) (run : operation.run checker = .ok result checker)
    (good : related checker result value) :
    Realizes terms checker operation (some value) related :=
  .of_run run holds (.refl _) good

theorem branch {condition condition' : Prop} [Decidable condition] [Decidable condition']
    {operation operation' : CheckM α} {meaning meaning' : Option β}
    {related : Checker → α → β → Prop} (same : condition ↔ condition')
    (whenTrue : condition → Realizes terms checker operation meaning related)
    (whenFalse : ¬condition → Realizes terms checker operation' meaning' related) :
    Realizes terms checker (if condition then operation else operation')
      (if condition' then meaning else meaning') related := by
  by_cases holds : condition
  · rw [if_pos holds, if_pos (same.mp holds)]
    exact whenTrue holds
  · rw [if_neg holds, if_neg fun holds' => holds (same.mpr holds')]
    exact whenFalse holds

theorem node {next : Node → CheckM γ} {meaning : Option δ} {related : Checker → γ → δ → Prop}
    {id : TypeId} (holds : terms.invariant checker) (denotes : checker.types.Denotes id ty)
    (rest : ∀ layer, checker.types.Reads layer ty →
      Realizes terms checker (next layer) meaning related) :
    Realizes terms checker (Checker.node id >>= next) meaning related :=
  .look (run_node checker id) (rest _ (denotes.reads (terms.coherent holds)))

theorem feature {next : Feature → CheckM γ} {next' : Outline → Option δ}
    {related : Checker → γ → δ → Prop} (holds : terms.invariant checker) (id : FeatureId)
    (rest : ∀ declared, checker.features.get id = .ok declared →
      Realizes terms checker (next declared) (next' (declared.outline checker.types.tree))
        related) :
    Realizes terms checker (Checker.feature id >>= next) (signature.feature id >>= next')
      related := by
  cases found : checker.features.get id with
  | ok declared =>
    rw [(terms.obeys holds).follows.feature_eq id declared found]
    exact .look (run_feature checker found) (rest declared found)
  | error failure =>
    have run : (Checker.feature id >>= next).run checker = .error failure checker := by
      rw [EStateM.run_bind, Checker.feature, run_readFeatures, found]
      rfl
    exact .of_error run ((terms.unknown holds found).imp_left fun isNone => by rw [isNone]; rfl)

/-! ## Types and events -/

section

variable (holds : terms.invariant checker)

include holds

theorem makes (made : checker.types.Makes ty (edit checker.types)) :
    Realizes terms checker (onTypes edit) (terms.make ty) fun after => after.types.Denotes := by
  have kept : Finds signature checker (onTypes edit) _ := .makes (terms.obeys holds) made
  obtain ⟨obeys, onward, denotes⟩ := kept _ _ (run_onTypes checker edit)
  by_cases admitted : terms.admits ty
  · rw [Demands.make, if_pos admitted]
    exact .of_run (run_onTypes checker edit) (terms.made admitted holds made obeys) onward denotes
  · rw [Demands.make, if_neg admitted]
    exact .lenient (terms.unlimited.resolve_right fun unlimited => admitted (unlimited.2 ty))

/-- A type that has a number already may always be asked for. -/
theorem makes_of_known {id : TypeId} (known : checker.types.Denotes id ty)
    (made : checker.types.Makes ty (edit checker.types)) :
    Realizes terms checker (onTypes edit) (some ty) fun after => after.types.Denotes := by
  have same := (made.denotes.inj (known.of_extends (terms.coherent holds)
    made.canonical.toCoherent made.extension) made.canonical.toCoherent).mpr rfl
  have unchanged := made.eq_of_holds (same ▸ known.1)
  refine .of_run (run_onTypes checker edit) ?_ ?_ made.denotes
  · rwa [unchanged]
  · rw [unchanged]
    exact .refl checker

theorem makes_of_liberal (liberal : terms.Liberal)
    (made : checker.types.Makes ty (edit checker.types)) :
    Realizes terms checker (onTypes edit) (some ty) fun after => after.types.Denotes := by
  by_cases isError : ty = .error
  · subst isError
    exact .makes_of_known holds (terms.denotes_error holds) made
  · have realizes := makes holds made
    rwa [Demands.make, if_pos (liberal ty isError)] at realizes

theorem asRef (liberal : terms.Liberal) {id : TypeId} (denotes : checker.types.Denotes id ty) :
    Realizes terms checker (asRef id) (some ty.asRef) fun after => after.types.Denotes :=
  .makes_of_liberal holds liberal (TypeStore.makes_asRef (terms.canonical holds) denotes)

theorem replaces {id : TypeId} {result : Ty} (denotes : checker.types.Denotes id ty)
    (made : checker.types.Makes result (edit checker.types)) :
    Realizes terms checker (onTypes edit) (terms.replace ty result) fun after =>
      after.types.Denotes := by
  rw [Demands.replace]
  split
  next unchanged => exact .makes_of_known holds denotes (unchanged ▸ made)
  next => exact .makes holds made

theorem of_finds {operation : CheckM α} {post : Checker → α → Prop}
    (finds : Finds signature checker operation post) {result : α} {after : Checker}
    (run : operation.run checker = .ok result after) (typesEq : after.types = checker.types)
    (reportsEq : after.reports = checker.reports) (journalEq : after.journal = checker.journal) :
    Realizes terms checker operation (some ()) fun after result _ => post after result := by
  obtain ⟨obeys, onward, good⟩ := finds result after run
  exact .of_run run (terms.quiet holds obeys onward typesEq reportsEq (.inl (by rw [journalEq])))
    onward good

theorem note (target : TypeId) (owner : String) :
    Realizes terms checker (record (.substituting target owner)) (some ()) fun _ _ _ => True := by
  have kept : Finds signature checker (record _) _ :=
    .record (terms.obeys holds) (.substituting target owner)
  obtain ⟨obeys, onward, _⟩ := kept _ _ (run_record checker _)
  refine .of_run (run_record checker _) (terms.quiet holds obeys onward ?_ ?_ ?_) onward trivial
  all_goals split
  · rfl
  · rfl
  · rfl
  · rfl
  · exact .inr ⟨target, owner, rfl⟩
  · exact .inl rfl

variable (loud : terms.admits .error)

include loud

theorem record (event : Event) :
    Realizes terms checker (record event) (some ()) fun _ _ _ => True := by
  have kept : Finds signature checker (Checker.record event) _ := .record (terms.obeys holds) event
  obtain ⟨obeys, onward, _⟩ := kept _ _ (run_record checker _)
  refine .of_run (run_record checker _) (terms.loud loud holds obeys onward ?_) onward trivial
  split <;> rfl

theorem report (issue : Issue) (span : Span) :
    Realizes terms checker (report issue span) (some ()) fun _ _ _ => True := by
  refine .follow (.record holds loud _) ?_
  intro after _ holds' _ _
  have canonical := terms.canonical holds'
  refine .of_run rfl (terms.loud loud holds' ?_ ⟨.refl _, rfl, rfl⟩ rfl) ⟨.refl _, rfl, rfl⟩ trivial
  exact (terms.obeys holds').grow canonical (.refl _) rfl rfl rfl rfl

omit loud in
theorem expect (lax : ¬terms.strict) (what : Invariant) (met : Bool) :
    Realizes terms checker (expect what met) (some ()) fun _ _ _ => True := by
  have recorded := fun event => Realizes.record holds (terms.excused lax).1 event
  have run := run_expect checker what met
  split at run
  · exact .of_run run holds (.refl _) trivial
  · split at run
    · exact .congr run (recorded _)
    · split at run
      · exact .of_error run (.inr ((terms.excused lax).2 _ (by simp)))
      · exact .congr run (recorded _)

end

/-! ## Lists -/

/-- What is related stays so. -/
def Lasting (terms : Terms signature) (related : Checker → α → β → Prop) : Prop :=
  ∀ {checker later : Checker}, terms.invariant checker → terms.invariant later →
    checker.Onward later → ∀ {result : α} {value : β}, related checker result value →
      related later result value

theorem lasting_denotes : Lasting terms fun checker => checker.types.Denotes :=
  fun holds holds' onward _ _ => terms.denotes holds holds' onward

/-- Lists are realized element by element. -/
theorem mapM {related : Checker → α → β → Prop} {related' : Checker → γ → δ → Prop}
    {operation : α → CheckM γ} {meaning : β → Option δ} (lasting : Lasting terms related)
    (lasting' : Lasting terms related') {list : List α} {list' : List β}
    (holds : terms.invariant checker) (listRelated : List.Forall₂ (related checker) list list')
    (step : ∀ after, ∀ result ∈ list, ∀ value, terms.invariant after → checker.Onward after →
      related after result value → Realizes terms after (operation result) (meaning value)
        related') :
    Realizes terms checker (list.mapM operation) (list'.mapM meaning) fun after =>
      List.Forall₂ (related' after) := by
  induction list generalizing checker list' with
  | nil =>
    cases listRelated
    exact .pure holds .nil
  | cons head tail ih =>
    cases listRelated with
    | cons headRelated tailRelated =>
      rw [List.mapM_cons, List.mapM_cons]
      refine .bind (step checker _ List.mem_cons_self _ holds (.refl _) headRelated) ?_
      intro after₁ first first' holds₁ onward₁ firstRelated
      have tailRelated := tailRelated.imp fun _ _ => lasting holds holds₁ onward₁
      refine .bind (ih holds₁ tailRelated ?_) ?_
      · intro after result member value holds' onward
        exact step after result (List.mem_cons_of_mem _ member) value holds'
          (onward₁.trans onward)
      intro after₂ others others' holds₂ onward₂ othersRelated
      exact .pure holds₂ (.cons (lasting' holds₁ holds₂ onward₂ firstRelated) othersRelated)

theorem optionMapM {operation : TypeId → CheckM TypeId} {meaning : Ty → Option Ty}
    {outerId : Option TypeId} {outer : Option Ty} (holds : terms.invariant checker)
    (denotes : Option.Rel checker.types.Denotes outerId outer)
    (step : ∀ id ∈ outerId, ∀ ty, checker.types.Denotes id ty →
      Realizes terms checker (operation id) (meaning ty) fun after => after.types.Denotes) :
    Realizes terms checker (outerId.mapM operation) (outer.mapM meaning) fun after =>
      Option.Rel after.types.Denotes := by
  cases denotes with
  | none => exact .pure holds .none
  | some denotes =>
    rw [Option.mapM_some, Option.mapM_some, map_eq_pure_bind, map_eq_pure_bind]
    refine .bind (step _ rfl _ denotes) ?_
    intro after result value holds' _ good
    exact .pure holds' (.some good)

theorem foldlM {paired : α → β → Prop} {operation : TypeId → α → CheckM TypeId}
    {meaning : Ty → β → Option Ty} {list : List α} {list' : List β}
    (listPaired : List.Forall₂ paired list list') {start : TypeId} {start' : Ty}
    (holds : terms.invariant checker) (denotes : checker.types.Denotes start start')
    (step : ∀ after id ty item item', terms.invariant after → checker.Onward after →
      after.types.Denotes id ty → paired item item' →
        Realizes terms after (operation id item) (meaning ty item')
          fun after => after.types.Denotes) :
    Realizes terms checker (list.foldlM operation start) (list'.foldlM meaning start')
      fun after => after.types.Denotes := by
  induction list generalizing checker list' start start' with
  | nil =>
    cases listPaired
    exact .pure holds denotes
  | cons item rest ih =>
    cases listPaired with
    | cons itemPaired restPaired =>
      rw [List.foldlM_cons, List.foldlM_cons]
      refine .bind (step checker start start' item _ holds (.refl _) denotes itemPaired) ?_
      intro after₁ result value holds₁ onward₁ resultDenotes
      refine ih restPaired holds₁ resultDenotes ?_
      intro after id ty item item' holds' onward
      exact step after id ty item item' holds' (onward₁.trans onward)

end Realizes

end Checker

end FeatureTypes

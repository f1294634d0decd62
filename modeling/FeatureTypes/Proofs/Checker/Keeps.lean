import FeatureTypes.Proofs.Checker.Frame
import FeatureTypes.Proofs.Checker.WellFormed
import FeatureTypes.Proofs.Store.Denotes

/-!
# Runs that keep an invariant
-/

namespace FeatureTypes.Checker

/-- The later checker has the types and features of the earlier one, and its options. -/
structure Onward (checker later : Checker) : Prop where
  types_extend : checker.types.Extends later.types
  features_eq : later.features = checker.features
  options_eq : later.options = checker.options

namespace Onward

theorem refl (checker : Checker) : checker.Onward checker :=
  ⟨.refl _, rfl, rfl⟩

theorem trans {first second third : Checker} (lower : first.Onward second)
    (upper : second.Onward third) : first.Onward third :=
  ⟨lower.types_extend.trans upper.types_extend, upper.features_eq.trans lower.features_eq,
    upper.options_eq.trans lower.options_eq⟩

end Onward

/-- The invariant holds of well-formed checkers only, and goes on to hold in a checker with
more types that declares and remembers the same. -/
class Enduring (invariant : Checker → Prop) : Prop where
  wellFormed : ∀ {checker : Checker}, invariant checker → checker.WellFormed
  grow : ∀ {checker later : Checker}, invariant checker → later.types.Canonical →
    checker.types.Extends later.types → later.features = checker.features →
      later.options.memoize = checker.options.memoize →
        later.byOwner.entries = checker.byOwner.entries →
          later.viaType.entries = checker.viaType.entries → invariant later

/-- Where the operation comes to a result, it keeps the invariant, and the result is as
`post` says. -/
def Keeps {α : Type} (invariant : Checker → Prop) (checker : Checker) (operation : CheckM α)
    (post : Checker → α → Prop) : Prop :=
  Ensures checker operation fun after result =>
    invariant after ∧ checker.Onward after ∧ post after result

namespace Keeps

variable {α β : Type} {invariant : Checker → Prop} {checker : Checker}

theorem pure {result : α} {post : Checker → α → Prop} (holds : invariant checker)
    (good : post checker result) : Keeps invariant checker (Pure.pure result) post :=
  Ensures.pure ⟨holds, .refl _, good⟩

theorem fail (failure : Failure) (post : Checker → α → Prop) :
    Keeps invariant checker (throw failure) post :=
  Ensures.fail failure _

/-- The rest of an operation may rely on the invariant again. -/
theorem bind {operation : CheckM α} {next : α → CheckM β} {middle : Checker → α → Prop}
    {post : Checker → β → Prop} (first : Keeps invariant checker operation middle)
    (rest : ∀ after result, invariant after → checker.Onward after → middle after result →
      Keeps invariant after (next result) post) :
    Keeps invariant checker (operation >>= next) post := by
  refine Ensures.bind first ?_
  rintro after₁ result₁ ⟨holds₁, onward₁, good₁⟩
  refine Ensures.weaken (rest after₁ result₁ holds₁ onward₁ good₁) ?_
  rintro after₂ result₂ ⟨holds₂, onward₂, good₂⟩
  exact ⟨holds₂, onward₁.trans onward₂, good₂⟩

theorem weaken {operation : CheckM α} {post post' : Checker → α → Prop}
    (keeps : Keeps invariant checker operation post)
    (weaker : ∀ after result, invariant after → checker.Onward after → post after result →
      post' after result) : Keeps invariant checker operation post' := by
  refine Ensures.weaken keeps ?_
  rintro after result ⟨holds, onward, good⟩
  exact ⟨holds, onward, weaker after result holds onward good⟩

theorem congr {operation operation' : CheckM α} {post : Checker → α → Prop}
    (alike : operation.run checker = operation'.run checker)
    (keeps : Keeps invariant checker operation' post) : Keeps invariant checker operation post := by
  intro result after run
  exact keeps result after (alike ▸ run)

theorem look {operation : CheckM α} {next : α → CheckM β} {post : Checker → β → Prop} {result : α}
    (run : operation.run checker = .ok result checker)
    (rest : Keeps invariant checker (next result) post) :
    Keeps invariant checker (operation >>= next) post :=
  Ensures.look run rest

theorem node {next : Node → CheckM β} {post : Checker → β → Prop} {id : TypeId} {ty : Ty}
    (denotes : checker.types.Denotes id ty) (coherent : checker.types.Coherent)
    (rest : ∀ layer, checker.types.Reads layer ty → Keeps invariant checker (next layer) post) :
    Keeps invariant checker (Checker.node id >>= next) post :=
  .look (run_node checker id) (rest _ (denotes.reads coherent))

theorem looks {operation : CheckM α} (looks : Looks operation) (holds : invariant checker) :
    Keeps invariant checker operation fun after result =>
      checker = after ∧ operation.run checker = .ok result checker := by
  refine Ensures.weaken (.of_looks looks) ?_
  rintro _ result ⟨rfl, run⟩
  exact ⟨holds, .refl _, rfl, run⟩

section

variable (holds : invariant checker)

include holds

theorem readFeatures {query : FeatureTable → Except Failure α} {post : Checker → α → Prop}
    (good : ∀ result, query checker.features = .ok result → post checker result) :
    Keeps invariant checker (readFeatures query) post := by
  intro result after run
  rw [run_readFeatures] at run
  cases answer : query checker.features with
  | error failure => simp [answer, Checker.answer] at run
  | ok result' =>
    rw [answer] at run
    obtain ⟨rfl, rfl⟩ := EStateM.Result.ok.inj run
    exact ⟨holds, .refl _, good result' answer⟩

theorem feature (id : FeatureId) :
    Keeps invariant checker (feature id) fun after declared =>
      checker = after ∧ checker.features.get id = .ok declared :=
  .readFeatures holds fun _ found => ⟨rfl, found⟩

theorem formal? (id : FormalId) :
    Keeps invariant checker (formal? id) fun after formal =>
      checker = after ∧ checker.features.formal? id = .ok formal :=
  .readFeatures holds fun _ found => ⟨rfl, found⟩

theorem constraint? (id : FormalId) :
    Keeps invariant checker (constraint? id) fun after constraint =>
      checker = after ∧ ∀ ty ∈ constraint, ∃ formal,
        checker.features.formal? id = .ok (some formal) ∧ formal.constraint = ty := by
  refine .bind (.formal? holds id) ?_
  rintro _ formal _ _ ⟨rfl, found⟩
  refine .pure holds ⟨rfl, fun ty present => ?_⟩
  obtain ⟨formal', rfl, rfl⟩ := Option.map_eq_some_iff.mp present
  exact ⟨formal', found, rfl⟩

theorem display (ty : TypeId) :
    Keeps invariant checker (display ty) fun after _ => checker = after :=
  .look (EStateM.run_get checker) (.readFeatures holds fun _ _ => rfl)

end

section

variable [enduring : Enduring invariant] (holds : invariant checker)

include enduring holds

theorem record (event : Event) : Keeps invariant checker (record event) fun _ _ => True := by
  intro result after run
  obtain ⟨_, rfl⟩ := EStateM.Result.ok.inj ((run_record checker event).symm.trans run)
  have canonical := (enduring.wellFormed holds).types_canonical
  split
  · exact ⟨enduring.grow holds canonical (.refl _) rfl rfl rfl rfl, ⟨.refl _, rfl, rfl⟩, trivial⟩
  · exact ⟨holds, .refl _, trivial⟩

theorem report (issue : Issue) (span : Span) :
    Keeps invariant checker (report issue span) fun _ _ => True := by
  refine .bind (.record holds _) ?_
  intro after _ holds' _ _ result after' run
  obtain ⟨_, rfl⟩ := EStateM.Result.ok.inj run
  have canonical := (enduring.wellFormed holds').types_canonical
  exact ⟨enduring.grow holds' canonical (.refl _) rfl rfl rfl rfl, ⟨.refl _, rfl, rfl⟩, trivial⟩

theorem expect (what : Invariant) (met : Bool) :
    Keeps invariant checker (expect what met) fun _ _ => True := by
  intro result after run
  rw [run_expect] at run
  split at run
  · obtain ⟨_, rfl⟩ := EStateM.Result.ok.inj run
    exact ⟨holds, .refl _, trivial⟩
  · split at run
    · exact Keeps.record holds _ result after run
    · split at run
      · cases run
      · exact Keeps.record holds _ result after run

/-- A type that is made gets a number that stands for it. -/
theorem makes {edit : TypeStore → TypeId × TypeStore} {ty : Ty}
    (made : checker.types.Makes ty (edit checker.types)) :
    Keeps invariant checker (onTypes edit) fun after result => after.types.Denotes result ty := by
  intro result after run
  obtain ⟨rfl, rfl⟩ := EStateM.Result.ok.inj ((run_onTypes checker _).symm.trans run)
  exact ⟨enduring.grow holds made.canonical made.extension rfl rfl rfl rfl,
    ⟨made.extension, rfl, rfl⟩, made.denotes⟩

theorem asRef {id : TypeId} {ty : Ty} (denotes : checker.types.Denotes id ty) :
    Keeps invariant checker (Checker.asRef id) fun after result =>
      after.types.Denotes result ty.asRef :=
  makes holds (TypeStore.makes_asRef (enduring.wellFormed holds).types_canonical denotes)

end

/-! ## Lists -/

def Lasts (good : Checker → α → Prop) : Prop :=
  ∀ ⦃checker later : Checker⦄ ⦃result : α⦄, checker.Onward later → good checker result →
    good later result

/-- What is found for one element lasts while the others are visited. -/
theorem mapM {operation : α → CheckM β} {good : Checker → β → Prop} (lasts : Lasts good)
    {list : List α} (holds : invariant checker)
    (step : ∀ after, ∀ item ∈ list, invariant after → checker.Onward after →
      Keeps invariant after (operation item) good) :
    Keeps invariant checker (list.mapM operation) fun after results =>
      ∀ result ∈ results, good after result := by
  induction list generalizing checker with
  | nil => exact .pure holds (by simp)
  | cons head tail ih =>
    rw [List.mapM_cons]
    refine .bind (step checker head List.mem_cons_self holds (.refl _)) ?_
    intro after₁ first holds₁ onward₁ firstGood
    refine .bind (ih holds₁ fun after item member holds' onward =>
      step after item (List.mem_cons_of_mem _ member) holds' (onward₁.trans onward)) ?_
    intro after₂ others holds₂ onward₂ othersGood
    exact .pure holds₂ (List.forall_mem_cons.mpr ⟨lasts onward₂ firstGood, othersGood⟩)

theorem optionMapM {operation : α → CheckM β} {good : Checker → β → Prop} {item : Option α}
    (holds : invariant checker)
    (step : ∀ present ∈ item, Keeps invariant checker (operation present) good) :
    Keeps invariant checker (item.mapM operation) fun after result =>
      ∀ present ∈ result, good after present := by
  cases item with
  | none => exact .pure holds (by simp)
  | some item =>
    rw [Option.mapM_some, map_eq_pure_bind]
    refine .bind (step item rfl) ?_
    intro after result holds' _ resultGood
    exact .pure holds' (by simpa using resultGood)

theorem foldlM {operation : β → α → CheckM β} {good : Checker → β → Prop} {list : List α}
    {start : β} (holds : invariant checker) (startGood : good checker start)
    (step : ∀ after state, ∀ item ∈ list, invariant after → checker.Onward after →
      good after state → Keeps invariant after (operation state item) good) :
    Keeps invariant checker (list.foldlM operation start) good := by
  induction list generalizing checker start with
  | nil => exact .pure holds startGood
  | cons item rest ih =>
    rw [List.foldlM_cons]
    refine .bind (step checker start item List.mem_cons_self holds (.refl _) startGood) ?_
    intro after₁ state holds₁ onward₁ stateGood
    refine ih holds₁ stateGood ?_
    intro after state' item' member holds' onward
    exact step after state' item' (List.mem_cons_of_mem _ member) holds' (onward₁.trans onward)

end Keeps

end FeatureTypes.Checker

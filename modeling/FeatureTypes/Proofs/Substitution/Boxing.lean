import FeatureTypes.Proofs.Meaning.Smooth

/-!
# Substitution and references

A type held through a reference is substituted in the same way as the type itself, and what
comes out is held through a reference.
-/

namespace FeatureTypes

namespace Ty

@[simp]
theorem mentionsFormal_asRef (ty : Ty) : ty.asRef.mentionsFormal = ty.mentionsFormal := by
  rw [mentionsFormal, mentionsFormal, any_parts, any_parts]
  cases ty <;> rfl

end Ty

/-! ## Trees -/

namespace Signature

variable (signature : Signature)

theorem rebuild_asRef (feature : FeatureId) (args newArgs : List Ty) (outer newOuter : Option Ty)
    (isRef isThis : Bool) :
    rebuild (.applied feature args outer true isThis) newArgs newOuter =
      (rebuild (.applied feature args outer isRef isThis) newArgs newOuter).asRef := by
  simp only [rebuild]
  split
  · rfl
  · split <;> rfl

theorem substituteFormal_asRef (owner : FeatureId) (actuals : List Ty) (id : FormalId)
    (boxed : Bool) :
    signature.substituteFormal owner actuals id true =
      (signature.substituteFormal owner actuals id boxed).map Ty.asRef := by
  unfold substituteFormal
  split
  · rfl
  · cases signature.formal? id with
    | none => rfl
    | some formal =>
      simp only [Option.bind_eq_bind, Option.bind_some]
      split
      · rfl
      · cases boxed <;> simp

def BoxesAlong (substitute : FeatureId → List Ty → Ty → Option Ty) : Prop :=
  ∀ owner actuals target,
    substitute owner actuals target.asRef = (substitute owner actuals target).map Ty.asRef

variable {substitute : FeatureId → List Ty → Ty → Option Ty} (boxes : BoxesAlong substitute)

include boxes

theorem BoxesAlong.foldlM (parents : List ParentOutline) (target : Ty) :
    parents.foldlM (fun ty parent => substitute parent.ancestor parent.actuals ty) target.asRef =
      (parents.foldlM (fun ty parent => substitute parent.ancestor parent.actuals ty)
        target).map Ty.asRef := by
  induction parents generalizing target with
  | nil => rfl
  | cons parent rest ih =>
    rw [List.foldlM_cons, List.foldlM_cons, boxes]
    cases substitute parent.ancestor parent.actuals target with
    | none => rfl
    | some ty => exact ih ty

theorem BoxesAlong.substituteStep : BoxesAlong (signature.substituteStep substitute) := by
  intro owner actuals target
  unfold Signature.substituteStep
  cases signature.feature owner with
  | none => rfl
  | some declared =>
    simp only [Option.bind_eq_bind, Option.bind_some, boxes.foldlM declared.parents target]
    cases declared.parents.foldlM
        (fun ty parent => substitute parent.ancestor parent.actuals ty) target with
    | none => rfl
    | some ty =>
      simp only [Option.map_some, Option.bind_some]
      cases ty with
      | formal id boxed => exact signature.substituteFormal_asRef owner actuals id boxed
      | applied feature args outer isRef isThis =>
        -- The parts are the same, so only the last line of the step tells the two apart.
        simp only [Ty.asRef, rebuild_asRef feature args _ outer _ isRef isThis,
          Option.map_bind, Function.comp_def, Option.pure_def, Option.map_some]
      | _ => rfl

omit boxes

theorem boxesAlong_substitute : BoxesAlong signature.substitute := by
  intro owner actuals target
  refine solution_map ?_ (Prod.map id (Prod.map id Ty.asRef)) Ty.asRef ?_ (owner, actuals, target)
  · rintro ⟨owner, actuals, target⟩
    exact .branch (.const _) (signature.finitary_substituteStep owner actuals target)
  · rintro call callBoxes ⟨owner, actuals, target⟩
    have boxes : BoxesAlong fun owner actuals target => call (owner, actuals, target) :=
      fun owner actuals target => callBoxes (owner, actuals, target)
    simp only [Prod.map_apply, id, Ty.mentionsFormal_asRef,
      boxes.substituteStep signature owner actuals target]
    split <;> rfl

end Signature

/-! ## Two operations -/

/-- What the relation says of a result it goes on to say when types are added. -/
def TypeStore.Persists {α β : Type} (related : TypeStore → α → β → Prop) : Prop :=
  ∀ {types larger : TypeStore}, types.Coherent → larger.Coherent → types.Extends larger →
    ∀ {result : α} {value : β}, related types result value → related larger result value

theorem TypeStore.persists_denotes : Persists Denotes :=
  fun coherent coherent' extension _ _ denotes => denotes.of_extends coherent coherent' extension

theorem TypeStore.persists_denoteAll : Persists fun types => List.Forall₂ types.Denotes :=
  fun coherent coherent' extension _ _ denote =>
    denote.imp fun _ _ denotes => denotes.of_extends coherent coherent' extension

namespace Checker

section

variable {α β γ δ : Type} {checker : Checker}

/-- The first operation gives `result`, and the second one `result'` at some time after that,
with the features as they were. -/
def GivesInTurn (checker : Checker) (first : CheckM α) (result : α) (second : CheckM β)
    (result' : β) : Prop :=
  ∃ middle before after, first.run checker = .ok result middle ∧ middle.Continues before ∧
    second.run before = .ok result' after

/-- The operations give `result` and `result'`, one of them at some time after the other. -/
def GivesBoth (checker : Checker) (first : CheckM α) (result : α) (second : CheckM β)
    (result' : β) : Prop :=
  checker.GivesInTurn first result second result' ∨ checker.GivesInTurn second result' first result

def Represents (checker : Checker) (operation : CheckM α) (meaning : Signature → Option β)
    (related : TypeStore → α → β → Prop) : Prop :=
  ∀ signature later, later.Obeys signature → checker.types.Extends later.types →
    Means signature later operation (meaning signature) fun after => related after.types

section

variable (faithful : checker.Faithful) {first : CheckM α} {second : CheckM β}
  {meaning : Signature → Option γ} {meaning' : Signature → Option δ}
  {related : TypeStore → α → γ → Prop} {related' : TypeStore → β → δ → Prop}
  (firstMeans : checker.Represents first meaning related)
  (secondMeans : checker.Represents second meaning' related') {result : α} {result' : β}

include faithful firstMeans secondMeans

theorem GivesInTurn.exists_values (persists : TypeStore.Persists related)
    (gives : checker.GivesInTurn first result second result') :
    ∃ types value value', TypeStore.Coherent types ∧ checker.types.Extends types ∧
      meaning checker.signature = some value ∧ related types result value ∧
        meaning' checker.signature = some value' ∧ related' types result' value' := by
  obtain ⟨middle, before, after, run, continues, run'⟩ := gives
  have obeys := faithful checker.signature checker.follows_signature
  obtain ⟨middleObeys, onward, value, prescribed, holds⟩ :=
    (firstMeans checker.signature checker obeys (.refl _)).finds result middle run
  have middleFaithful : middle.Faithful := by
    refine faithful.of_run (fun signature obeys => ?_) result run
    exact (firstMeans signature checker obeys (.refl _)).finds.weaken fun _ _ _ _ _ => trivial
  have coherent := middleObeys.types_canonical.toCoherent
  have beforeObeys : before.Obeys checker.signature := by
    rw [← faithful.wellFormed.signature_eq_of_onward coherent onward]
    exact continues.obeys middleFaithful
  obtain ⟨_, extension, _⟩ := continues.faithful middleFaithful
  have extension' := onward.types_extend.trans extension
  obtain ⟨afterObeys, onward', value', prescribed', holds'⟩ :=
    (secondMeans checker.signature before beforeObeys extension').finds result' after run'
  have coherent' := afterObeys.types_canonical.toCoherent
  exact ⟨after.types, value, value', coherent', extension'.trans onward'.types_extend, prescribed,
    persists coherent coherent' (extension.trans onward'.types_extend) holds, prescribed', holds'⟩

theorem GivesBoth.exists_values (persists : TypeStore.Persists related)
    (persists' : TypeStore.Persists related')
    (gives : checker.GivesBoth first result second result') :
    ∃ types value value', TypeStore.Coherent types ∧ checker.types.Extends types ∧
      meaning checker.signature = some value ∧ related types result value ∧
        meaning' checker.signature = some value' ∧ related' types result' value' := by
  rcases gives with inTurn | inTurn
  · exact inTurn.exists_values faithful firstMeans secondMeans persists
  · obtain ⟨types, value', value, coherent, extension, prescribed', holds', prescribed, holds⟩ :=
      inTurn.exists_values faithful secondMeans firstMeans persists'
    exact ⟨types, value, value', coherent, extension, prescribed, holds, prescribed', holds'⟩

end

theorem exists_givesInTurn_of_run {first : CheckM α} {second : CheckM β} (good : α → β → Bool)
    (returns : (match (do let result ← first; return (result, ← second)).run checker with
      | .ok (result, result') _ => good result result'
      | .error _ _ => false) = true) :
    ∃ result result', checker.GivesInTurn first result second result' ∧
      good result result' = true := by
  rw [EStateM.run_bind] at returns
  cases run : first.run checker with
  | error failure after => simp [run] at returns
  | ok result middle =>
    simp only [run, EStateM.run_bind] at returns
    cases run' : second.run middle with
    | error failure after => simp [run'] at returns
    | ok result' after =>
      simp only [run'] at returns
      exact ⟨result, result', ⟨middle, middle, after, run, .refl, run'⟩, returns⟩

end

/-! ## Boxing before and after -/

section

variable {checker : Checker} {actuals : List TypeId} {actuals' : List Ty} {target : TypeId}
  {target' : Ty} (coherent : checker.types.Coherent)
  (denote : List.Forall₂ checker.types.Denotes actuals actuals')
  (denotes : checker.types.Denotes target target')

include coherent denote denotes

theorem represents_substitute_asRef (owner : FeatureId) :
    checker.Represents (do substitute owner actuals (← asRef target))
      (fun signature => signature.substitute owner actuals' target'.asRef)
      TypeStore.Denotes := by
  intro signature later obeys extension
  have coherent' := obeys.types_canonical.toCoherent
  have denote := TypeStore.persists_denoteAll coherent coherent' extension denote
  refine .follow (.asRef obeys Demands.liberal_lax
    (denotes.of_extends coherent coherent' extension)) ?_
  intro after boxed obeys' onward boxedDenotes
  exact substitute_keepsTo owner obeys' (obeys.denotesAll obeys' onward denote) boxedDenotes

theorem represents_asRef_substitute (owner : FeatureId) :
    checker.Represents (do asRef (← substitute owner actuals target))
      (fun signature => (signature.substitute owner actuals' target').map Ty.asRef)
      TypeStore.Denotes := by
  intro signature later obeys extension
  have coherent' := obeys.types_canonical.toCoherent
  have denote := TypeStore.persists_denoteAll coherent coherent' extension denote
  simp only [Option.map_eq_bind]
  refine .bind (substitute_keepsTo owner obeys denote
    (denotes.of_extends coherent coherent' extension)) ?_
  intro after result result' obeys' _ resultDenotes
  exact .asRef obeys' Demands.liberal_lax resultDenotes

end

/-- Boxing a type and then substituting gives the same as substituting and then boxing the
result. -/
theorem substitute_asRef
    (checker : Checker) (faithful : checker.Faithful)
    (owner : FeatureId) (actuals : List TypeId) (target : TypeId)
    (held : ∀ ty ∈ target :: actuals, checker.types.Holds ty) {boxedFirst boxedLast : TypeId}
    (gives : checker.GivesBoth (do substitute owner actuals (← asRef target)) boxedFirst
      (do asRef (← substitute owner actuals target)) boxedLast) :
    boxedFirst = boxedLast := by
  rw [List.forall_mem_cons] at held
  have coherent := faithful.wellFormed.types_canonical.toCoherent
  have denote : List.Forall₂ checker.types.Denotes actuals (actuals.map checker.types.tree) :=
    TypeStore.Denotes.forall₂_iff.mpr ⟨held.2, rfl⟩
  have denotes : checker.types.Denotes target (checker.types.tree target) := ⟨held.1, rfl⟩
  obtain ⟨types, first, last, coherent', _, prescribed, firstDenotes, prescribed', lastDenotes⟩ :=
    gives.exists_values faithful
      (represents_substitute_asRef coherent denote denotes owner)
      (represents_asRef_substitute coherent denote denotes owner) TypeStore.persists_denotes
      TypeStore.persists_denotes
  have same : first = last := by
    apply Option.some.inj
    rw [← prescribed, ← prescribed']
    exact checker.signature.boxesAlong_substitute owner _ _
  exact (firstDenotes.inj lastDenotes coherent').mpr same

/-- The target is the metatype of a pair as seen from inside, and the pair inherits from a
feature with an open formal. -/
theorem substitute_asRef_metatype :
    let start := afterAll
      [.declare (.feature "any" none true), .construct (.instantiate ⟨1⟩ []),
        .declare (.feature "tuple" none true), .declare (.formal ⟨2⟩ "T" ⟨3⟩ true {}),
        .declare (.feature "pair" none true), .declare (.formal ⟨3⟩ "A" ⟨3⟩ false {}),
        .declare (.parent ⟨3⟩ ⟨2⟩ [⟨5⟩, ⟨3⟩]),
        .declare (.feature "type" none true), .declare (.typeRoot ⟨4⟩),
        .construct (.selfType ⟨3⟩), .call (.metatype ⟨7⟩)] {}
    start.options.memoize = true ∧ start.types.isRef ⟨9⟩ = false ∧
      start.types.mentionsFormal ⟨9⟩ = true ∧
      ∃ boxedFirst boxedLast,
        start.GivesBoth (do substitute ⟨3⟩ [⟨3⟩] (← asRef ⟨9⟩)) boxedFirst
            (do asRef (← substitute ⟨3⟩ [⟨3⟩] ⟨9⟩)) boxedLast ∧
          boxedFirst = boxedLast := by
  intro start
  have reachable : start.Reachable := (Reachable.initial {} {}).steps (by decide +kernel)
  obtain ⟨boxedFirst, boxedLast, gives, _⟩ : ∃ boxedFirst boxedLast,
      start.GivesInTurn (do substitute ⟨3⟩ [⟨3⟩] (← asRef ⟨9⟩)) boxedFirst
        (do asRef (← substitute ⟨3⟩ [⟨3⟩] ⟨9⟩)) boxedLast ∧ true = true :=
    exists_givesInTurn_of_run (fun _ _ => true) (by decide +kernel)
  exact ⟨by decide +kernel, by decide +kernel, by decide +kernel, boxedFirst, boxedLast,
    .inl gives, substitute_asRef start (reachable.faithful (by decide +kernel)) ⟨3⟩ [⟨3⟩] ⟨9⟩
      (by decide +kernel) (.inl gives)⟩

end Checker

end FeatureTypes

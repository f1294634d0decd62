import FeatureTypes.Proofs.Meaning.Choices
import FeatureTypes.Proofs.Renumbering.Features
import FeatureTypes.Proofs.Substitution.Filled
import FeatureTypes.Proofs.Validation.Reports
import Mathlib.Data.Sym.Sym2

/-!
# The order of the summands of a choice

The check of a choice type compares its summands two by two, at whatever positions they
stand.  Each test leaves the reports alone and answers what the features prescribe.
-/

namespace FeatureTypes

/-! ## Pairs of positions -/

/-- The elements at each two positions of a list. -/
def positionPairs {α : Type} : List α → List (α × α)
  | [] => []
  | first :: rest => rest.map (first, ·) ++ positionPairs rest

theorem filterMap_positionPairs_perm {α β : Type} {choose : α × α → Option β}
    (symmetric : ∀ first second, choose (first, second) = choose (second, first))
    {list list' : List α} (permuted : list.Perm list') :
    ((positionPairs list).filterMap choose).Perm ((positionPairs list').filterMap choose) := by
  induction permuted with
  | nil => exact .refl _
  | cons first rest ih =>
    simp only [positionPairs, List.filterMap_append]
    exact ((rest.map _).filterMap _).append ih
  | swap first second rest =>
    simp only [positionPairs, List.map_cons, List.cons_append, List.filterMap_cons,
      List.filterMap_append, symmetric second first]
    cases choose (first, second) with
    | none => exact List.perm_append_comm_assoc _ _ _
    | some result => exact .cons _ (List.perm_append_comm_assoc _ _ _)
  | trans _ _ ih ih' => exact ih.trans ih'

/-! ## Reports -/

/-- Whether the report is about a choice that is a reference. -/
def Report.isRefToChoice (report : Report) : Bool :=
  match report.issue with
  | .refToChoice _ => true
  | _ => false

/-- For a report of overlapping summands its texts, those of the summands without their order,
and its place. -/
def Report.overlap? (report : Report) : Option (String × Sym2 String × Span) :=
  match report.issue with
  | .overlappingSummands choice first second => some (choice, s(first, second), report.span)
  | _ => none

/-- The text of a type, if it has one. -/
def Ty.text (table : FeatureTable) (ty : Ty) : String :=
  (ty.display table).toOption.getD ""

theorem Ty.text_eq {table : FeatureTable} {ty : Ty} {text : String}
    (shown : ty.display table = .ok text) : ty.text table = text := by
  rw [Ty.text, shown]
  rfl

namespace Checker

open Classical in
/-- The reports on pairs of summands of `choice`: one for each that clashes. -/
noncomputable def overlapReports (checker : Checker) (choice : Ty) (span : Span)
    (pairs : List (Ty × Ty)) : List Report :=
  pairs.filterMap fun (first, second) =>
    if checker.signature.Clash first second then
      some ⟨.overlappingSummands (choice.text checker.features) (first.text checker.features)
        (second.text checker.features), span⟩
    else none

/-- The report on a `choice` that is a reference. -/
def referenceReports (checker : Checker) (choice : Ty) (span : Span) : List Report :=
  if choice.isRef then [⟨.refToChoice (choice.text checker.features), span⟩] else []

/-- What is to be reported on the type `choice` with the given summands: that it is a reference,
and each pair of positions whose summands clash. -/
noncomputable def choiceReports (checker : Checker) (choice : Ty) (span : Span)
    (summands : List Ty) : List Report :=
  checker.referenceReports choice span ++
    checker.overlapReports choice span (positionPairs summands)

open Classical in
theorem filterMap_choiceReports (checker : Checker) (choice : Ty) (span : Span)
    (summands : List Ty) :
    (checker.choiceReports choice span summands).filterMap Report.overlap? =
      (positionPairs summands).filterMap fun (first, second) =>
        if checker.signature.Clash first second then
          some (choice.text checker.features,
            s(first.text checker.features, second.text checker.features), span)
        else none := by
  have noOverlap : (checker.referenceReports choice span).filterMap Report.overlap? = [] := by
    unfold referenceReports
    split <;> rfl
  rw [choiceReports, List.filterMap_append, noOverlap, List.nil_append, overlapReports,
    List.filterMap_filterMap]
  congr 1
  funext pair
  dsimp only
  split <;> rfl

theorem countP_choiceReports (checker : Checker) (choice : Ty) (span : Span) (summands : List Ty) :
    (checker.choiceReports choice span summands).countP Report.isRefToChoice =
      if choice.isRef then 1 else 0 := by
  have noReference : (checker.overlapReports choice span (positionPairs summands)).countP
      Report.isRefToChoice = 0 := by
    rw [List.countP_eq_zero]
    intro report member
    obtain ⟨pair, _, reported⟩ := List.mem_filterMap.mp member
    dsimp only at reported
    split at reported
    · obtain rfl := Option.some.inj reported
      exact Bool.false_ne_true
    · cases reported
  rw [choiceReports, List.countP_append, noReference, Nat.add_zero, referenceReports]
  split <;> rfl

/-- The checker has reported these, after what was reported before. -/
def Adds (checker after : Checker) (reports : List Report) : Prop :=
  after.reports.toList = checker.reports.toList ++ reports

variable {start checker after : Checker} {signature : Signature} {ty first second : TypeId}
  {choice first' second' : Ty} {span : Span}

theorem Adds.trans {last : Checker} {reports reports' : List Report}
    (adds : checker.Adds after reports) (adds' : after.Adds last reports') :
    checker.Adds last (reports ++ reports') := by
  rw [Adds, adds', adds, List.append_assoc]

theorem adds_nil (reportsEq : after.reports = checker.reports) : checker.Adds after [] := by
  rw [Adds, reportsEq, List.append_nil]

theorem finds_report (obeys : checker.Obeys signature) (issue : Issue) (span : Span) :
    Finds signature checker (report issue span) fun after _ =>
      checker.Adds after [⟨issue, span⟩] := by
  have reports : Finds signature checker (report issue span) fun _ _ => True :=
    .report obeys issue span
  intro result after run
  obtain ⟨obeys', onward, _⟩ := reports result after run
  obtain ⟨after', run', adds⟩ := run_report issue checker
  obtain ⟨_, rfl⟩ := EStateM.Result.ok.inj (run.symm.trans run')
  exact ⟨obeys', onward, adds⟩

/-! ## Checked pairs -/

theorem finds_overlap (obeys : checker.Obeys signature)
    (firstDenotes : checker.types.Denotes first first')
    (secondDenotes : checker.types.Denotes second second') :
    Finds signature checker (overlap first second) fun _ answer =>
      answer = true ↔ signature.Overlap first' second' := by
  have canonical := obeys.types_canonical
  have direct : ∀ {after target actual target' actual'}, after.Obeys signature →
      checker.Onward after → checker.types.Denotes target target' →
        checker.types.Denotes actual actual' →
          Finds signature after (isDirectlyAssignable target actual) fun _ answer =>
            answer = true ↔ signature.TakesDirectly target' actual' := by
    intro after target actual target' actual' obeys' onward targetDenotes actualDenotes
    refine .weaken (finds_isDirectlyAssignable obeys' (obeys.denotes obeys' onward targetDenotes)
      (obeys.denotes obeys' onward actualDenotes)) ?_
    rintro _ answer _ _ ⟨choice, isChoice, answerIff⟩
    rw [targetDenotes.inj actualDenotes canonical.toCoherent] at answerIff
    simp [answerIff, Signature.TakesDirectly, isChoice]
  have sameIff := firstDenotes.inj secondDenotes canonical.toCoherent
  unfold overlap
  split
  next same => exact .pure obeys (by simp [Signature.Overlap, sameIff.mp same])
  next different =>
    rw [sameIff] at different
    refine .look (run_readTypes checker _) ?_
    rw [firstDenotes.isFormal_eq canonical.toCoherent,
      secondDenotes.isFormal_eq canonical.toCoherent]
    split
    next unknown =>
      refine .pure obeys ?_
      rcases Bool.or_eq_true_iff.mp unknown with unknown | unknown <;>
        simp [Signature.Overlap, different, unknown]
    next known =>
      obtain ⟨firstKnown, secondKnown⟩ : first'.isFormal = false ∧ second'.isFormal = false := by
        simpa using known
      simp only [Signature.Overlap, different, false_or, firstKnown, secondKnown, true_and]
      refine .bind (direct obeys (.refl _) firstDenotes secondDenotes) ?_
      intro after takes obeys' onward takesIff
      cases takes with
      | true => exact .pure obeys' (by simpa using Or.inl (takesIff.mp rfl))
      | false =>
        rw [← takesIff, or_iff_right Bool.false_ne_true]
        exact direct obeys' onward secondDenotes firstDenotes

/-- While its features are those of `start`, the checker has a number for the type `choice`. -/
structure Examines (start checker : Checker) (ty : TypeId) (choice : Ty) : Prop
    extends checker.Obeys start.signature where
  features_eq : checker.features = start.features
  denotes : checker.types.Denotes ty choice

section

variable (stage : start.Examines checker ty choice)

include stage

theorem Examines.later (obeys : after.Obeys start.signature) (onward : checker.Onward after) :
    start.Examines after ty choice :=
  { obeys with
    features_eq := onward.features_eq.trans stage.features_eq
    denotes := stage.toObeys.denotes obeys onward stage.denotes }

theorem Examines.quietly {α β : Type} {operation : CheckM α} {operation' : CheckM β}
    {post : Checker → α → Prop} {relation : Replay.Stage → α → β → Prop}
    (closed : start.features.FormalsClosed)
    (replays : Replay.Replays True ⟨checker, stage.toObeys.sound⟩ operation operation' relation)
    (finds : Finds start.signature checker operation post) :
    Finds start.signature checker operation fun after result =>
      post after result ∧ checker.Adds after [] := by
  intro result after run
  obtain ⟨obeys, onward, holds⟩ := finds result after run
  rw [← stage.features_eq] at closed
  exact ⟨obeys, onward, holds,
    adds_nil (Replay.reports_eq_of_run stage.toObeys.sound closed replays run)⟩

theorem finds_checkByValue :
    Finds start.signature checker (checkByValue ty span) fun after _ =>
      checker.Adds after (start.referenceReports choice span) := by
  refine .look (run_readTypes checker _) ?_
  rw [stage.denotes.isRef_eq stage.types_canonical.toCoherent, referenceReports]
  cases choice.isRef with
  | false => exact .pure stage.toObeys (adds_nil rfl)
  | true =>
    refine .bind (finds_display stage.toObeys stage.denotes) ?_
    rintro _ text _ _ ⟨rfl, shown⟩
    rw [stage.features_eq] at shown
    exact Ty.text_eq shown ▸ finds_report stage.toObeys _ span

variable (closed : start.features.FormalsClosed)

include closed

theorem finds_checkSummandPair (firstDenotes : checker.types.Denotes first first')
    (secondDenotes : checker.types.Denotes second second') :
    Finds start.signature checker (checkSummandPair ty span first second) fun after _ =>
      checker.Adds after (start.overlapReports choice span [(first', second')]) := by
  have canonical := stage.types_canonical
  have isErrorIff : first = .error ∨ second = .error ↔ first' = .error ∨ second' = .error :=
    or_congr (firstDenotes.inj (.error canonical) canonical.toCoherent)
      (secondDenotes.inj (.error canonical) canonical.toCoherent)
  have unreported (noClash : ¬ start.signature.Clash first' second') :
      start.overlapReports choice span [(first', second')] = [] := by
    simp [overlapReports, noClash]
  unfold checkSummandPair
  rw [if_congr isErrorIff rfl rfl]
  split
  next isError =>
    rw [unreported fun clash => isError.elim clash.1 clash.2.1]
    exact .pure stage.toObeys (adds_nil rfl)
  next typed =>
    rw [not_or] at typed
    refine .bind (stage.quietly closed
      (Replay.engine.overlap ⟨rfl, firstDenotes.1⟩ ⟨rfl, secondDenotes.1⟩)
      (finds_overlap stage.toObeys firstDenotes secondDenotes)) ?_
    rintro after overlaps obeys onward ⟨overlapsIff, adds⟩
    cases overlaps with
    | false =>
      rw [unreported fun clash => Bool.false_ne_true (overlapsIff.mpr clash.2.2)]
      exact .pure obeys adds
    | true =>
      have clash : start.signature.Clash first' second' :=
        ⟨typed.1, typed.2, overlapsIff.mp rfl⟩
      have later := stage.later obeys onward
      refine .bind (finds_display obeys later.denotes) ?_
      rintro _ choiceText _ _ ⟨rfl, choiceShown⟩
      refine .bind (finds_display obeys (stage.toObeys.denotes obeys onward firstDenotes)) ?_
      rintro _ firstText _ _ ⟨rfl, firstShown⟩
      refine .bind (finds_display obeys (stage.toObeys.denotes obeys onward secondDenotes)) ?_
      rintro _ secondText _ _ ⟨rfl, secondShown⟩
      rw [later.features_eq] at choiceShown firstShown secondShown
      refine .weaken (finds_report obeys _ span) fun _ _ _ _ reported => ?_
      simpa [overlapReports, clash, Ty.text_eq choiceShown, Ty.text_eq firstShown,
        Ty.text_eq secondShown] using adds.trans reported

theorem finds_checkSummandPair_each (firstDenotes : checker.types.Denotes first first')
    {rest : List TypeId} {rest' : List Ty}
    (restDenote : List.Forall₂ checker.types.Denotes rest rest') :
    Finds start.signature checker (rest.forM (checkSummandPair ty span first)) fun after _ =>
      checker.Adds after (start.overlapReports choice span (rest'.map (first', ·))) := by
  induction rest generalizing checker rest' with
  | nil =>
    cases restDenote
    exact .pure stage.toObeys (adds_nil rfl)
  | cons second others ih =>
    obtain ⟨second', others', secondDenotes, othersDenote, rfl⟩ :=
      List.forall₂_cons_left_iff.mp restDenote
    refine .bind (finds_checkSummandPair stage closed firstDenotes secondDenotes) ?_
    intro after _ obeys onward adds
    refine .weaken (ih (stage.later obeys onward) (stage.toObeys.denotes obeys onward firstDenotes)
      (stage.toObeys.denotesAll obeys onward othersDenote)) fun _ _ _ _ adds' => ?_
    have addsAll := adds.trans adds'
    rwa [overlapReports, overlapReports, ← List.filterMap_append] at addsAll

theorem finds_checkSummandPairs {summands : List TypeId} {summands' : List Ty}
    (summandsDenote : List.Forall₂ checker.types.Denotes summands summands') :
    Finds start.signature checker (checkSummandPairs ty span summands) fun after _ =>
      checker.Adds after (start.overlapReports choice span (positionPairs summands')) := by
  induction summands generalizing checker summands' with
  | nil =>
    cases summandsDenote
    exact .pure stage.toObeys (adds_nil rfl)
  | cons first rest ih =>
    obtain ⟨first', rest', firstDenotes, restDenote, rfl⟩ :=
      List.forall₂_cons_left_iff.mp summandsDenote
    refine .bind (finds_checkSummandPair_each stage closed firstDenotes restDenote) ?_
    intro after _ obeys onward adds
    refine .weaken (ih (stage.later obeys onward)
      (stage.toObeys.denotesAll obeys onward restDenote)) fun _ _ _ _ adds' => ?_
    have addsAll := adds.trans adds'
    rwa [overlapReports, overlapReports, ← List.filterMap_append] at addsAll

/-! ## Checked choices -/

/-- The check reports what the declarations prescribe, and nothing else. -/
theorem finds_checkChoice :
    Finds start.signature checker (checkChoice ty span) fun after _ =>
      ∃ seen, start.signature.summands? choice = some seen ∧ ∀ summands, seen = some summands →
        checker.Adds after (start.choiceReports choice span summands) := by
  have entered : Finds start.signature checker (recordEntry .choice ty) fun _ _ => True := by
    refine .look (EStateM.run_get checker) ?_
    split
    · refine .bind (finds_display stage.toObeys stage.denotes) ?_
      rintro _ _ obeys _ ⟨rfl, _⟩
      exact .record obeys _
    · exact .pure stage.toObeys trivial
  refine .bind (stage.quietly closed (Replay.engine.recordEntry .choice ⟨rfl, stage.denotes.1⟩)
    entered) ?_
  rintro after₁ _ obeys₁ onward₁ ⟨_, adds₁⟩
  have stage₁ := stage.later obeys₁ onward₁
  refine .bind (stage₁.quietly closed (Replay.engine.summands? ⟨rfl, stage₁.denotes.1⟩)
    (.look (EStateM.run_get after₁)
      (means_summandsWithin? after₁.options.depthLimit obeys₁ stage₁.denotes).finds)) ?_
  rintro after₂ seen obeys₂ onward₂ ⟨⟨seen', prescribed, seenDenote⟩, adds₂⟩
  have stage₂ := stage₁.later obeys₂ onward₂
  cases seenDenote with
  | none => exact .pure obeys₂ ⟨none, prescribed, by simp⟩
  | @some summands summands' summandsDenote =>
    refine .bind (finds_checkByValue stage₂) ?_
    intro after₃ _ obeys₃ onward₃ adds₃
    refine .weaken (finds_checkSummandPairs (stage₂.later obeys₃ onward₃) closed
      (obeys₂.denotesAll obeys₃ onward₃ summandsDenote)) fun _ _ _ _ adds₄ => ?_
    refine ⟨_, prescribed, fun summands isSame => ?_⟩
    obtain rfl := Option.some.inj isSame
    exact ((adds₁.trans adds₂).trans adds₃).trans adds₄

end

end Checker

/-! ## Permuted summands -/

/-- The second feature has the summands of the first one in some order, and all else is the
same. -/
def Feature.PermutesSummands (declared declared' : Feature) : Prop :=
  ∃ summands, declared' = { declared with summands } ∧
    Option.Rel List.Perm declared.summands summands

theorem Feature.PermutesSummands.renumbered {declared declared' : Feature}
    (permutes : declared.PermutesSummands declared') :
    declared.Renumbered (fun _ _ => True) declared' := by
  have all {list list' : List TypeId} (lengthEq : list.length = list'.length) :
      List.Forall₂ (fun _ _ => True) list list' :=
    List.forall₂_iff_get.mpr ⟨lengthEq, fun _ _ _ => trivial⟩
  obtain ⟨summands, rfl, permuted⟩ := permutes
  refine ⟨⟨rfl, rfl, rfl, rfl, rfl, ?_, ?_, ?_⟩, rfl⟩
  · exact List.forall₂_same.mpr fun _ _ => ⟨rfl, rfl, rfl, rfl, trivial⟩
  · exact List.forall₂_same.mpr fun _ _ => ⟨rfl, all rfl, trivial⟩
  · generalize declared.summands = before at permuted ⊢
    cases permuted with
    | none => exact .none
    | some permuted => exact .some (all permuted.length_eq)

/-- In the second table the summands of `choice` are permuted, and all else is the same. -/
structure FeatureTable.PermutesSummands (table table' : FeatureTable) (choice : FeatureId) :
    Prop where
  typeRoot_eq : table'.typeRoot = table.typeRoot
  other_eq : ∀ id, id ≠ choice → table'.get id = table.get id
  permuted : ∃ declared summands summands', table.get choice = .ok declared ∧
    declared.summands = some summands ∧ summands.Perm summands' ∧
      table'.get choice = .ok { declared with summands := some summands' }

namespace FeatureTable.PermutesSummands

variable {table table' : FeatureTable} {choice : FeatureId}
  (permutes : table.PermutesSummands table' choice)

include permutes

theorem get_cases (id : FeatureId) :
    (∃ failure, table.get id = .error failure ∧ table'.get id = .error failure) ∨
      ∃ declared declared', table.get id = .ok declared ∧ table'.get id = .ok declared' ∧
        declared.PermutesSummands declared' := by
  by_cases isChoice : id = choice
  · obtain ⟨declared, summands, summands', found, hasSummands, permuted, found'⟩ :=
      permutes.permuted
    exact .inr ⟨declared, _, isChoice ▸ found, isChoice ▸ found', _, rfl,
      hasSummands ▸ .some permuted⟩
  · rw [permutes.other_eq id isChoice]
    cases table.get id with
    | error failure => exact .inl ⟨failure, rfl, rfl⟩
    | ok declared =>
      refine .inr ⟨declared, declared, rfl, rfl, declared.summands, rfl, ?_⟩
      cases declared.summands with
      | none => exact .none
      | some summands => exact .some (.refl summands)

theorem exists_get {id : FeatureId} {declared' : Feature} (found' : table'.get id = .ok declared') :
    ∃ declared, table.get id = .ok declared ∧ declared.PermutesSummands declared' := by
  rcases permutes.get_cases id with ⟨_, _, missing⟩ | ⟨declared, _, found, found'', permuted⟩
  · cases found'.symm.trans missing
  · obtain rfl := Except.ok.inj (found''.symm.trans found')
    exact ⟨declared, found, permuted⟩

theorem bind_get_eq {α : Type} {view : Feature → Option α}
    (blind : ∀ {declared declared' : Feature}, declared.PermutesSummands declared' →
      view declared = view declared') (id : FeatureId) :
    (table.get id).toOption.bind view = (table'.get id).toOption.bind view := by
  rcases permutes.get_cases id with ⟨_, missing, missing'⟩ | ⟨_, _, found, found', permuted⟩
  · rw [missing, missing']
  · rw [found, found']
    exact blind permuted

theorem renumbered : table.Renumbered (fun _ _ => True) table' := by
  refine ⟨permutes.typeRoot_eq, fun id => ?_⟩
  rcases permutes.get_cases id with ⟨_, missing, missing'⟩ | ⟨_, _, found, found', permuted⟩
  · rw [missing, missing']
    exact .none
  · rw [found, found']
    exact .some permuted.renumbered

theorem formalsClosed (closed : table.FormalsClosed) : table'.FormalsClosed := by
  intro id declared' found'
  obtain ⟨declared, found, _, rfl, _⟩ := permutes.exists_get found'
  exact closed id declared found

theorem text_eq : Ty.text table' = Ty.text table := by
  funext ty
  rw [Ty.text, Ty.text, permutes.renumbered.display_eq]

end FeatureTable.PermutesSummands

namespace Checker

variable {left right : Checker} {choice : FeatureId}

theorem reported_of_run {checker after : Checker} (faithful : checker.Faithful)
    (closed : checker.features.FormalsClosed) {ty : TypeId} (held : checker.types.Holds ty)
    {span : Span} (run : (checkChoice ty span).run checker = .ok () after) :
    ∃ seen, checker.signature.summands? (checker.types.tree ty) = some seen ∧
      ∀ summands, seen = some summands →
        checker.Adds after (checker.choiceReports (checker.types.tree ty) span summands) :=
  (finds_checkChoice ⟨faithful checker.signature checker.follows_signature, rfl, held, rfl⟩ closed
    () after run).2.2

theorem signature_formalsClosed {checker : Checker} (closed : checker.features.FormalsClosed) :
    checker.signature.FormalsClosed := by
  intro id outline isOutline formal member
  obtain ⟨declared, found, rfl⟩ := signature_feature_eq_some_iff.mp isOutline
  obtain ⟨declaredFormal, declaredMember, rfl⟩ := List.mem_map.mp member
  exact closed id declared found declaredFormal declaredMember

section

variable (typesEq : right.types = left.types)
  (permutes : left.features.PermutesSummands right.features choice)

include typesEq permutes

theorem signature_withoutSummands_eq :
    left.signature.withoutSummands = right.signature.withoutSummands := by
  have featureEq (id : FeatureId) :
      left.signature.withoutSummands.feature id = right.signature.withoutSummands.feature id := by
    simp only [Signature.withoutSummands, signature, typesEq, Option.map_eq_bind,
      Option.bind_assoc]
    refine permutes.bind_get_eq ?_ id
    rintro declared _ ⟨summands, rfl, _⟩
    rfl
  have inheritsEq : left.signature.inherits = right.signature.inherits := by
    funext heir ancestor
    simp only [signature, permutes.renumbered.inheritsFrom_eq]
  rw [Signature.withoutSummands, Signature.withoutSummands, Signature.mk.injEq]
  exact ⟨funext featureEq, inheritsEq⟩

theorem signature_isChoice_eq : left.signature.isChoice = right.signature.isChoice := by
  funext ty
  unfold Signature.isChoice
  cases ty.appliedFeature? with
  | none => rfl
  | some id =>
    simp only [signature, typesEq, Option.bind_eq_bind, Option.bind_map]
    refine permutes.bind_get_eq ?_ id
    rintro declared _ ⟨summands, rfl, permuted⟩
    generalize summandsEq : declared.summands = before at permuted
    cases permuted <;> simp [Feature.outline, summandsEq]

theorem WellFormed.of_permutes (wellFormed : left.WellFormed) : right.WellFormed := by
  refine ⟨typesEq ▸ wellFormed.types_canonical, fun id declared' found' => ?_⟩
  rw [typesEq]
  obtain ⟨declared, found, summands, rfl, permuted⟩ := permutes.exists_get found'
  have held := wellFormed.features_wellFormed id declared found
  refine { held with summands_held := ?_ }
  rintro list rfl summand member
  generalize summandsEq : declared.summands = before at permuted
  cases permuted with
  | some permuted => exact held.summands_held _ summandsEq summand (permuted.mem_iff.mpr member)

/-- Permuted summands clash in the same pairs. -/
theorem overlaps_perm {ty : Ty} {span : Span} {summands summands' : List Ty}
    (permuted : summands.Perm summands') :
    ((left.choiceReports ty span summands).filterMap Report.overlap?).Perm
      ((right.choiceReports ty span summands').filterMap Report.overlap?) := by
  have agree := signature_withoutSummands_eq typesEq permutes
  have choicesEq := signature_isChoice_eq typesEq permutes
  have clashEq : right.signature.Clash = left.signature.Clash := by
    funext first second
    exact propext ⟨.of_withoutSummands agree.symm choicesEq.symm,
      .of_withoutSummands agree choicesEq⟩
  rw [filterMap_choiceReports, filterMap_choiceReports, permutes.text_eq, clashEq]
  refine filterMap_positionPairs_perm (fun first second => ?_) permuted
  dsimp only
  rw [Sym2.eq_swap]
  classical exact if_congr Signature.clash_comm rfl rfl

end

/-- The check of a choice type does not depend on the order of the summands: if they are permuted,
the same number of references is reported, and the same overlaps up to the order of the two
summands in each, namely one for each pair of positions whose summands could be typed and
overlap. -/
theorem checkChoice_reports_perm
    (left right : Checker) (faithful : ∀ checker ∈ [left, right], checker.Faithful)
    (closed : left.features.FormalsClosed) (typesEq : right.types = left.types)
    (choice : FeatureId) (permutes : left.features.PermutesSummands right.features choice)
    (ty : TypeId) (held : left.types.Holds ty) {args : List TypeId} {outer : Option TypeId}
    {isRef isThis : Bool} (applies : left.types.node ty = .applied choice args outer isRef isThis)
    (fits : left.features.Accepts choice args.length) (span : Span)
    {leftAfter rightAfter : Checker}
    (leftRun : (checkChoice ty span).run left = .ok () leftAfter)
    (rightRun : (checkChoice ty span).run right = .ok () rightAfter) :
    ∃ summands summands', summands.Perm summands' ∧
      left.signature.summands? (left.types.tree ty) = some (some summands) ∧
      right.signature.summands? (left.types.tree ty) = some (some summands') ∧
      let reports := left.choiceReports (left.types.tree ty) span summands
      let reports' := right.choiceReports (left.types.tree ty) span summands'
      left.Adds leftAfter reports ∧ right.Adds rightAfter reports' ∧
      reports.countP Report.isRefToChoice = reports'.countP Report.isRefToChoice ∧
      (reports.filterMap Report.overlap?).Perm (reports'.filterMap Report.overlap?) := by
  simp only [List.forall_mem_cons] at faithful
  obtain ⟨leftFaithful, rightFaithful, _⟩ := faithful
  have wellFormed := leftFaithful.wellFormed
  obtain ⟨seen, leftHas, leftReports⟩ := reported_of_run leftFaithful closed held leftRun
  obtain ⟨seen', rightHas, rightReports⟩ := reported_of_run rightFaithful
    (permutes.formalsClosed closed) (typesEq ▸ held) rightRun
  rw [typesEq] at rightHas rightReports
  obtain ⟨declared, list, list', found, hasSummands, permuted, found'⟩ := permutes.permuted
  obtain ⟨_, found'', accepts⟩ := fits
  obtain rfl := Except.ok.inj (found.symm.trans found'')
  -- The two lists of summands come from the declared ones in different order.
  obtain ⟨summands, summands', rfl, rfl, summandsPerm⟩ : ∃ summands summands',
      seen = some summands ∧ seen' = some summands' ∧ summands.Perm summands' := by
    have treeEq := TypeStore.tree_eq wellFormed.types_canonical.toCoherent held
    rw [applies, Node.toTy] at treeEq
    rw [treeEq] at leftHas rightHas
    refine Signature.summands?_perm (signature_withoutSummands_eq typesEq permutes)
      (signature_formalsClosed closed) (left.follows_signature.feature_eq choice declared found)
      (right.follows_signature.feature_eq choice _ found') ?_
      (congrArg (Option.map _) hasSummands) rfl (typesEq ▸ permuted.map _) ?_ leftHas rightHas
    · intro position formal present
      simp only [Feature.outline, List.getElem?_map, Option.map_eq_some_iff] at present
      obtain ⟨declaredFormal, present, rfl⟩ := present
      exact (wellFormed.features_wellFormed choice declared found).formal_id position
        declaredFormal present
    · rw [List.length_map, Feature.outline, List.length_map]
      exact Feature.eq_length_of_accepts accepts
        (Feature.endsOpen_eq_false (closed choice declared found))
  refine ⟨summands, summands', summandsPerm, leftHas, rightHas, leftReports summands rfl,
    rightReports summands' rfl, ?_, overlaps_perm typesEq permutes summandsPerm⟩
  rw [countP_choiceReports, countP_choiceReports]

/-- A reference to a choice between two actuals that overlap.  In one order the summands are the
formals of the choice, in the other they are not. -/
theorem checkChoice_reports_perm_pick :
    let left := afterAll
      [.declare (.feature "any" none true), .construct (.instantiate ⟨1⟩ []),
        .declare (.feature "int" none true), .declare (.parent ⟨2⟩ ⟨1⟩ []),
        .construct (.instantiate ⟨2⟩ []), .declare (.feature "pick" none false),
        .declare (.formal ⟨3⟩ "A" ⟨3⟩ false {}), .declare (.formal ⟨3⟩ "B" ⟨3⟩ false {}),
        .construct (.formal ⟨⟨3⟩, 0⟩), .construct (.formal ⟨⟨3⟩, 1⟩),
        .declare (.choice ⟨3⟩ [⟨5⟩, ⟨6⟩]), .construct (.instantiate ⟨3⟩ [⟨3⟩, ⟨4⟩]),
        .construct (.asRef ⟨7⟩)] {}
    let swap (declared : Feature) : Feature := { declared with summands := some [⟨6⟩, ⟨5⟩] }
    let right :=
      { left with features := (left.features.modify ⟨3⟩ swap).toOption.getD left.features }
    left.Reachable ∧ left.features.FormalsClosed ∧
      left.features.PermutesSummands right.features ⟨3⟩ ∧
      left.types.node ⟨8⟩ = .applied ⟨3⟩ [⟨3⟩, ⟨4⟩] none true false ∧
      ∃ leftAfter rightAfter reports reports',
        (checkChoice ⟨8⟩ {}).run left = .ok () leftAfter ∧ left.Adds leftAfter reports ∧
        (checkChoice ⟨8⟩ {}).run right = .ok () rightAfter ∧ right.Adds rightAfter reports' ∧
        reports.countP Report.isRefToChoice = reports'.countP Report.isRefToChoice ∧
        (reports.filterMap Report.overlap?).Perm (reports'.filterMap Report.overlap?) := by
  intro left swap right
  have reachable : left.Reachable := (Reachable.initial {} {}).steps (by decide +kernel)
  have closed : left.features.FormalsClosed := FeatureTable.forall_declared (by decide +kernel)
  have applies : left.types.node ⟨8⟩ = .applied ⟨3⟩ [⟨3⟩, ⟨4⟩] none true false := by
    decide +kernel
  have declares : (left.features.get ⟨3⟩).toOption.map (fun declared =>
      (declared.summands, declared.accepts 2)) = some (some [⟨5⟩, ⟨6⟩], true) := by
    decide +kernel
  obtain ⟨leftAfter, leftRun⟩ := run'_eq_some_iff.mp
    (by decide +kernel : (checkChoice ⟨8⟩ {}).run' left = some ())
  obtain ⟨rightAfter, rightRun⟩ := run'_eq_some_iff.mp
    (by decide +kernel : (checkChoice ⟨8⟩ {}).run' right = some ())
  cases found : left.features.get ⟨3⟩ with
  | error failure => simp [found, Except.toOption] at declares
  | ok declared =>
    obtain ⟨isChoice, accepts⟩ : declared.summands = some [⟨5⟩, ⟨6⟩] ∧
        declared.accepts 2 = true := by
      simpa [found, Except.toOption] using declares
    have modified : left.features.modify ⟨3⟩ swap = .ok right.features := by
      simp only [right, FeatureTable.modify, found]
      rfl
    obtain ⟨before, found', update⟩ := FeatureTable.modify_update modified
    obtain rfl := Except.ok.inj (found.symm.trans found')
    have permutes : left.features.PermutesSummands right.features ⟨3⟩ :=
      ⟨update.typeRoot_eq, update.get_other, declared, _, _, found, isChoice, .swap _ _ _,
        update.get_self⟩
    have rightFaithful : right.Faithful :=
      (reachable.sound.toWellFormed.of_permutes (by simp only [right]) permutes).faithful_of_empty
        (by decide +kernel) (by decide +kernel)
    obtain ⟨_, _, _, _, _, added, added', counted, permuted⟩ := checkChoice_reports_perm left right
      (by simpa using ⟨reachable.faithful (by decide +kernel), rightFaithful⟩) closed
      (by simp only [right]) ⟨3⟩ permutes ⟨8⟩ (by decide +kernel) applies ⟨declared, found, accepts⟩
      {} leftRun rightRun
    exact ⟨reachable, closed, permutes, applies, leftAfter, rightAfter, _, _, leftRun, added,
      rightRun, added', counted, permuted⟩

end Checker

end FeatureTypes

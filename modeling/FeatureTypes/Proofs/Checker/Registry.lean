import FeatureTypes.Proofs.Checker.Companions
import FeatureTypes.Proofs.Checker.Operation

/-!
# Runs of declarations

A table to which features are declared one after the other, and for which companions
are asked, stays lawful as long as nothing fails.  What is done to the types in
between does not matter.  Once a feature has a companion, asking for it changes nothing.
-/

namespace FeatureTypes

/-- A companion stays the companion of its feature. -/
theorem FeatureTable.Develops.companionOf_eq {table later : FeatureTable}
    (develops : table.Develops later) (lawful : table.Lawful) (lawful' : later.Lawful)
    {id companion : FeatureId} (linked : table.companionOf id = some companion) :
    later.companionOf id = some companion := by
  rw [lawful.companion_iff] at linked
  obtain ⟨mirror, found, isOrigin⟩ := exists_of_originOf linked
  obtain ⟨mirror', found', kept⟩ := develops companion mirror found
  rw [lawful'.companion_iff, originOf_eq found',
    (Feature.seat_eq_iff.mp kept.seat_eq).2.2.2.2]
  exact isOrigin

namespace Checker

variable {start checker : Checker}

/-! ## Runs -/

/-- The later checker is reached by declarations, none of which fails, and by asking for
companions.  Types may be made in between, and results remembered or forgotten. -/
inductive Registers (start : Checker) : Checker → Prop
  | refl : Registers start start
  | declare {checker after : Checker} {answer : Answer} (registers : Registers start checker)
      (declaration : Declaration) (run : declaration.run.run checker = .ok answer after) :
      Registers start after
  | companion {checker after : Checker} {answer : Option FeatureId}
      (registers : Registers start checker) (id : FeatureId)
      (run : (companion? id).run checker = .ok answer after) : Registers start after
  | elsewhere {checker later : Checker} (registers : Registers start checker)
      (features_eq : later.features = checker.features) : Registers start later

theorem ensures_declareFormal (owner : FeatureId) (name : String) (constraint : TypeId)
    (isOpen : Bool) (span : Span) :
    Ensures checker (declareFormal owner name constraint isOpen span) fun after _ =>
      checker.features.Gains after.features := by
  refine .bind (.addFormal owner name constraint isOpen span) ?_
  intro after₁ id added
  refine .weaken (.of_spares (.onTypes _)) ?_
  intro after₂ _ spared
  rw [spared]
  exact .formal added

theorem ensures_declareParent (heir ancestor : FeatureId) (actuals : List TypeId) :
    Ensures checker (declareParent heir ancestor actuals) fun after _ =>
      checker.features.Gains after.features := by
  refine .bind (.of_spares (.instantiate ancestor actuals)) ?_
  intro after₁ ty spared
  rw [← spared]
  exact .weaken (.modifyFeature heir _) fun _ _ modified =>
    .edit modified (fun _ => .withParent _ _) (fun _ => rfl) fun _ => rfl

theorem ensures_declaration (declaration : Declaration) :
    Ensures checker declaration.run fun after _ => checker.features.Gains after.features := by
  cases declaration with
  | feature name outer isRef =>
    exact .bind (.onFeatures _) fun _ _ declared => .pure (.feature declared)
  | formal owner name constraint isOpen span =>
    exact .bind (ensures_declareFormal owner name constraint isOpen span)
      fun _ _ gains => .pure gains
  | parent heir ancestor actuals =>
    exact .bind (ensures_declareParent heir ancestor actuals) fun _ _ gains => .pure gains
  | choice id summands =>
    exact .bind (.modifyFeature id _) fun _ _ modified =>
      .pure (.edit modified (fun _ => .of_eq rfl rfl rfl) (fun _ => rfl) fun _ => rfl)
  | typeRoot root =>
    intro answer after run
    obtain ⟨_, rfl⟩ := EStateM.Result.ok.inj run
    exact .typeRoot root

theorem Registers.lawful (registers : start.Registers checker)
    (lawful : start.features.Lawful) : checker.features.Lawful := by
  induction registers with
  | refl => exact lawful
  | declare _ declaration run ih =>
    exact ih.gain (ensures_declaration declaration _ _ run)
  | companion _ id run ih =>
    exact (ensures_companionWithin ih _ id _ _ run).lawful
  | elsewhere _ featuresEq ih =>
    rw [featuresEq]
    exact ih

theorem Registers.develops (registers : start.Registers checker)
    (lawful : start.features.Lawful) : start.features.Develops checker.features := by
  induction registers with
  | refl => exact .refl _
  | declare _ declaration run ih =>
    exact ih.trans (ensures_declaration declaration _ _ run).develops
  | companion registers id run ih =>
    exact ih.trans (ensures_companionWithin (registers.lawful lawful) _ id _ _ run).develops
  | elsewhere _ featuresEq ih =>
    rw [featuresEq]
    exact ih

/-! ## Lists of operations -/

theorem Spares.construction (construction : Construction) : Spares construction.run := by
  cases construction with
  | shiftFormals source target offset ty => exact .shiftFormals source target offset ty
  | selfType id => exact .selfTypeWithin _ id
  | instantiate id args => exact .instantiate id args
  | _ => exact fun _ => rfl

theorem after_construct (construction : Construction) (checker : Checker) :
    ∃ types events, (Operation.construct construction).after checker =
      { checker with types, journal := { checker.journal with events } } := by
  have spares : Spares (Operation.construct construction).run :=
    .bind (.construction construction) fun _ => .pure _
  have spared := spares checker
  unfold Operation.after
  cases run : (Operation.construct construction).run.run checker with
  | ok _ after | error _ after =>
    rw [run] at spared
    exact ⟨_, _, spared⟩

theorem features_after_construct (construction : Construction) (checker : Checker) :
    ((Operation.construct construction).after checker).features = checker.features := by
  obtain ⟨types, events, afterEq⟩ := after_construct construction checker
  rw [afterEq]

/-- Whether the operation makes a type, declares something or asks for a companion. -/
def Operation.registers : Operation → Bool
  | .construct _ | .declare _ | .companion _ => true
  | _ => false

/-- Whether the operation comes to a result. -/
def Operation.succeeds (operation : Operation) (checker : Checker) : Bool :=
  match operation.run.run checker with
  | .ok _ _ => true
  | .error _ _ => false

/-- Some operations in a row only make types, declare something or ask for companions, and
none of them fails. -/
def Registering (checker : Checker) : (operations : List Operation) → Prop
  | [] => True
  | operation :: rest =>
    operation.registers = true ∧ operation.succeeds checker = true ∧
      (operation.after checker).Registering rest

instance decidableRegistering :
    (checker : Checker) → (operations : List Operation) → Decidable (checker.Registering operations)
  | _, [] => inferInstanceAs (Decidable True)
  | checker, operation :: rest =>
    have := decidableRegistering (operation.after checker) rest
    inferInstanceAs (Decidable (_ ∧ _ ∧ _))

theorem Registers.step (registers : start.Registers checker)
    {operation : Operation} (registering : operation.registers = true)
    (succeeds : operation.succeeds checker = true) : start.Registers (operation.after checker) := by
  unfold Operation.succeeds at succeeds
  unfold Operation.after
  cases run : operation.run.run checker with
  | error failure after => simp [run] at succeeds
  | ok answer after =>
    cases operation with
    | construct construction =>
      have spared := features_after_construct construction checker
      rw [Operation.after, run] at spared
      exact .elsewhere registers spared
    | declare declaration => exact .declare registers declaration run
    | companion id =>
      have asked : Ensures checker (Operation.companion id).run fun after _ =>
          start.Registers after :=
        .bind (fun companion after run => Registers.companion registers id run)
          fun _ _ registers' => .pure registers'
      exact asked answer after run
    | call request => cases registering
    | clearMemos => cases registering
    | takeReports => cases registering
    | restart options keepReports => cases registering

theorem Registers.steps (registers : start.Registers checker)
    {operations : List Operation} (registering : checker.Registering operations) :
    start.Registers (afterAll operations checker) := by
  induction operations generalizing checker with
  | nil => exact registers
  | cons operation rest ih =>
    obtain ⟨registers', succeeds, registering⟩ := registering
    exact ih (registers.step registers' succeeds) registering

/-- After declarations, none of which fails, the features are lawful, and the name of each formal
is found under the number that the formal carries. -/
theorem features_lawful
    {start : Checker} (fresh : start.features = .initial) (registers : start.Registers checker) :
    checker.features.Lawful ∧ ∀ id declared formal, checker.features.get id = .ok declared →
      formal ∈ declared.formals → checker.features.formalName formal.id = .ok formal.name := by
  have initially : start.features.Lawful := by
    rw [fresh]
    exact FeatureTable.initial_lawful
  have lawful := registers.lawful initially
  exact ⟨lawful, fun id declared formal found => lawful.formalName_eq found⟩

def slotOperations : List Operation :=
  [.declare (.feature "any" none true), .construct (.instantiate ⟨1⟩ []),
    .declare (.feature "Type" none true), .declare (.typeRoot ⟨2⟩),
    .declare (.feature "table" none true), .declare (.formal ⟨3⟩ "K" ⟨3⟩ false {}),
    .declare (.feature "slot" (some ⟨3⟩) false), .declare (.formal ⟨4⟩ "V" ⟨4⟩ true {}),
    .declare (.parent ⟨4⟩ ⟨1⟩ []), .companion ⟨4⟩]

/-- The companion of the inner feature lies in the companion of the outer one, which was
created first. -/
theorem features_lawful_slot :
    let checker := afterAll slotOperations {}
    checker.features.companionOf ⟨3⟩ = some ⟨5⟩ ∧ checker.features.companionOf ⟨4⟩ = some ⟨6⟩ ∧
      checker.features.outerOf ⟨6⟩ = some ⟨5⟩ ∧ checker.features.Lawful ∧
      ∀ id declared formal, checker.features.get id = .ok declared → formal ∈ declared.formals →
        checker.features.formalName formal.id = .ok formal.name := by
  intro checker
  have registers : Registers {} checker := Registers.refl.steps (by decide +kernel)
  exact ⟨by decide +kernel, by decide +kernel, by decide +kernel, features_lawful rfl registers⟩

/-- Asking for the companion of a feature other than the universe and companions creates the
companions that are missing from it outwards, and nothing else.  Asking for it again at any
later time gives the same companion and changes nothing. -/
theorem companion?_equips {first : Checker} (fresh : first.features = .initial)
    (registers : first.Registers start) (wellFormed : start.WellFormed) {id : FeatureId}
    {declared : Feature} (found : start.features.get id = .ok declared)
    (notUniverse : id ≠ .universe) (plain : declared.isCompanion = false)
    {answer : Option FeatureId} {after : Checker}
    (run : (companion? id).run start = .ok answer after) :
    ∃ chain companion, start.features.Lacks id chain ∧
      start.features.Equips after.features chain (Feature.Reflects start after.types) ∧
      answer = some companion ∧ after.features.companionOf id = some companion ∧
      ∀ later, after.Registers later → (companion? id).run later = .ok answer later := by
  have lawful := registers.lawful (fresh ▸ FeatureTable.initial_lawful)
  have provided := ensures_companionWithin lawful _ id answer after run
  have grown := wellFormed.ensures_companionWithin _ id answer after run
  obtain ⟨companion, rfl⟩ : ∃ companion, answer = some companion := by
    cases answer with
    | some companion => exact ⟨companion, rfl⟩
    | none =>
      obtain ⟨_, foundAfter⟩ := grown.2.features_grow.get_eq id declared found
      rcases provided.missing lawful rfl with isUniverse | hasOrigin
      · exact absurd isUniverse notUniverse
      · rw [FeatureTable.originOf_eq foundAfter] at hasOrigin
        simp [Feature.isCompanion, hasOrigin] at plain
  obtain ⟨chain, lacks, equips⟩ := provided.equips
  refine ⟨chain, companion, lacks, equips.mono fun _ _ _ _ _ reflects => reflects.2 wellFormed, rfl,
    provided.companion_eq, fun later registers' => run_companion? ?_⟩
  exact (registers'.develops provided.lawful).companionOf_eq provided.lawful
    (registers'.lawful provided.lawful) provided.companion_eq

/-- The constraint of the last formal is a reference to the first formal. -/
theorem companion?_equips_slot :
    let start := afterAll
      [.declare (.feature "any" none true), .construct (.instantiate ⟨1⟩ []),
        .declare (.feature "Type" none true), .declare (.typeRoot ⟨2⟩),
        .declare (.feature "table" none true), .declare (.formal ⟨3⟩ "K" ⟨3⟩ false {}),
        .declare (.feature "slot" (some ⟨3⟩) false), .declare (.formal ⟨4⟩ "V" ⟨4⟩ false {}),
        .construct (.formal ⟨⟨4⟩, 0⟩), .construct (.asRef ⟨5⟩),
        .declare (.formal ⟨4⟩ "W" ⟨6⟩ true {})] {}
    start.Reachable ∧ ∃ after, (companion? ⟨4⟩).run start = .ok (some ⟨6⟩) after ∧
      ∃ chain companion, start.features.Lacks ⟨4⟩ chain ∧
        start.features.Equips after.features chain (Feature.Reflects start after.types) ∧
        some ⟨6⟩ = some companion ∧ after.features.companionOf ⟨4⟩ = some companion ∧
        ∀ later, after.Registers later → (companion? ⟨4⟩).run later = .ok (some ⟨6⟩) later := by
  intro start
  have reachable : start.Reachable := (Reachable.initial {} {}).steps (by decide +kernel)
  have registers : Registers {} start := Registers.refl.steps (by decide +kernel)
  have asked : (companion? ⟨4⟩).run' start = some (some ⟨6⟩) := by decide +kernel
  obtain ⟨after, run⟩ := run'_eq_some_iff.mp asked
  have isPlain : (start.features.get ⟨4⟩).toOption.map Feature.isCompanion = some false := by
    decide +kernel
  cases found : start.features.get ⟨4⟩ with
  | error failure => simp [found, Except.toOption] at isPlain
  | ok declared =>
    have plain : declared.isCompanion = false := by simpa [found, Except.toOption] using isPlain
    exact ⟨reachable, after, run, companion?_equips rfl registers reachable.sound.toWellFormed found
      (by decide) plain run⟩

end Checker

end FeatureTypes

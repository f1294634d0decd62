import FeatureTypes.Proofs.Feature.Built
import FeatureTypes.Proofs.Store.Flags

/-!
# Flat tables

Where every feature is declared directly in the universe, no type is inside another one.
-/

namespace FeatureTypes.FeatureTable

variable {table : FeatureTable} {formals formals' : FormalId → Prop}

/-! ## Proper types -/

/-- The type, apart from its parts, is void, one of the given formals, or a feature with
fitting arguments that is inside no other type and is no enclosing instance. -/
def RootProper (table : FeatureTable) (formals : FormalId → Prop) : Ty → Prop
  | .error | .undefined => False
  | .void => True
  | .formal id _ => formals id
  | .applied feature args outer _ isThis =>
    table.Fits feature args.length ∧ outer = none ∧ isThis = false

/-- The type is proper, and its formals are among `formals`. -/
def Proper (table : FeatureTable) (formals : FormalId → Prop) (ty : Ty) : Prop :=
  ∀ part ∈ ty.parts, table.RootProper formals part

/-- The formal is one that `owner` declares. -/
def Owns (table : FeatureTable) (owner : FeatureId) (id : FormalId) : Prop :=
  id.feature = owner ∧ table.DeclaresFormal id

theorem Owns.of_grows {table larger : FeatureTable} (growth : table.Grows larger)
    {owner : FeatureId} {id : FormalId} (owned : table.Owns owner id) : larger.Owns owner id := by
  obtain ⟨belongs, declared, found, bound⟩ := owned
  obtain ⟨_, foundLarger⟩ := growth.get_eq id.feature declared found
  exact ⟨belongs, _, foundLarger, bound⟩

instance (table : FeatureTable) (formals : FormalId → Prop) [DecidablePred formals] :
    DecidablePred (table.RootProper formals)
  | .error | .undefined => inferInstanceAs (Decidable False)
  | .void => inferInstanceAs (Decidable True)
  | .formal id _ => inferInstanceAs (Decidable (formals id))
  | .applied feature args outer _ isThis =>
    inferInstanceAs (Decidable (table.Fits feature args.length ∧ outer = none ∧ isThis = false))

instance (table : FeatureTable) (formals : FormalId → Prop) [DecidablePred formals] (ty : Ty) :
    Decidable (table.Proper formals ty) :=
  inferInstanceAs (Decidable (∀ part ∈ ty.parts, table.RootProper formals part))

instance (table : FeatureTable) (owner : FeatureId) : DecidablePred (table.Owns owner) :=
  fun _ => inferInstanceAs (Decidable (_ ∧ _))

theorem proper_void (table : FeatureTable) (formals : FormalId → Prop) :
    table.Proper formals .void := by
  simp [Proper, RootProper, Ty.parts]

theorem proper_formal_iff {id : FormalId} {boxed : Bool} :
    table.Proper formals (.formal id boxed) ↔ formals id := by
  simp [Proper, RootProper, Ty.parts]

theorem proper_applied_iff {feature : FeatureId} {args : List Ty} {outer : Option Ty}
    {isRef isThis : Bool} :
    table.Proper formals (.applied feature args outer isRef isThis) ↔
      table.Fits feature args.length ∧ (∀ arg ∈ args, table.Proper formals arg) ∧
        outer = none ∧ isThis = false := by
  constructor
  · intro proper
    obtain ⟨fits, outermost, notThis⟩ := proper _ (Ty.self_mem_parts _)
    refine ⟨fits, fun arg member part occurs => ?_, outermost, notThis⟩
    exact proper part (Ty.mem_parts_of_mem_args member occurs)
  · rintro ⟨fits, argsProper, rfl, rfl⟩ part occurs
    rcases Ty.mem_parts_applied.mp occurs with rfl | ⟨arg, member, inArg⟩ | ⟨around, absent, _⟩
    · exact ⟨fits, rfl, rfl⟩
    · exact argsProper arg member part inArg
    · cases absent

@[simp]
theorem proper_asRef_iff {ty : Ty} : table.Proper formals ty.asRef ↔ table.Proper formals ty := by
  cases ty with
  | formal id boxed => rw [Ty.asRef, proper_formal_iff, proper_formal_iff]
  | applied feature args outer isRef isThis =>
    rw [Ty.asRef, proper_applied_iff, proper_applied_iff]
  | _ => rfl

namespace Proper

variable {ty : Ty}

theorem toOver (proper : table.Proper formals ty) : ty.Over formals table.Declares := by
  intro part occurs
  have holds := proper part occurs
  cases part with
  | applied feature args outer isRef isThis =>
    obtain ⟨⟨declared, found, _⟩, _⟩ := holds
    exact index_lt_size found
  | undefined => exact trivial
  | _ => exact holds

theorem mono (proper : table.Proper formals ty) (weaker : ∀ id, formals id → formals' id) :
    table.Proper formals' ty := by
  intro part occurs
  have holds := proper part occurs
  cases part with
  | formal id boxed => exact weaker id holds
  | _ => exact holds

theorem not_mentionsThis (proper : table.Proper formals ty) : ty.mentionsThis = false := by
  rw [Ty.mentionsThis, List.any_eq_false]
  intro part occurs
  have holds := proper part occurs
  cases part with
  | applied feature args outer isRef isThis => simp [Ty.isThis, holds.2.2]
  | _ => simp [Ty.isThis]

theorem replace {replacement : FormalId → Ty}
    (proper : table.Proper (fun id => table.Proper formals (replacement id)) ty) :
    table.Proper formals (ty.replace replacement) := by
  induction ty with
  | formal id boxed =>
    have replaced := proper_formal_iff.mp proper
    cases boxed with
    | false => rwa [Ty.replace_formal_false]
    | true => exact proper_asRef_iff.mpr replaced
  | applied feature args outer isRef isThis argsProper _ =>
    obtain ⟨fits, properArgs, rfl, rfl⟩ := proper_applied_iff.mp proper
    rw [Ty.replace_applied, proper_applied_iff]
    refine ⟨by simpa using fits, ?_, rfl, rfl⟩
    intro arg member
    obtain ⟨arg, original, rfl⟩ := List.mem_map.mp member
    exact argsProper arg original (properArgs arg original)
  | void => exact table.proper_void formals
  | _ => exact (proper _ (Ty.self_mem_parts _)).elim

variable {owner : FeatureId} {actuals : List Ty}

/-- Proper actuals make a proper type. -/
theorem replace_own (proper : table.Proper (table.Owns owner) ty)
    (fits : table.Fits owner actuals.length)
    (actualsProper : ∀ actual ∈ actuals, table.Proper formals actual) :
    table.Proper formals (ty.replace (ownReplacement owner actuals)) := by
  apply Proper.replace
  apply proper.mono
  rintro id ⟨belongs, declaresFormal⟩
  obtain ⟨actual, present, replaced⟩ := exists_actual fits belongs declaresFormal
  rw [replaced]
  exact actualsProper actual (List.mem_of_getElem? present)

end Proper

/-- A table of features that are declared directly in the universe, without open formals
and companions, whose inheritance graph has no cycles, and in which the actuals of the
parents, the constraints and the summands are proper types over the formals of the feature
that they are declared for. -/
structure Flat (table : FeatureTable) (unfold : TypeId → Ty) : Prop where
  in_universe : ∀ id declared, table.get id = .ok declared → declared.inUniverse
  acyclic : table.Acyclic
  formals_closed : ∀ id declared, table.get id = .ok declared →
    ∀ formal ∈ declared.formals, formal.isOpen = false
  not_companion : ∀ id declared, table.get id = .ok declared → declared.isCompanion = false
  actuals_fit : ∀ id declared, table.get id = .ok declared →
    ∀ parent ∈ declared.parents, table.Fits parent.ancestor parent.actuals.length
  actuals_proper : ∀ id declared, table.get id = .ok declared →
    ∀ parent ∈ declared.parents, ∀ actual ∈ parent.actuals,
      table.Proper (table.Owns id) (unfold actual)
  constraints_proper : ∀ id declared, table.get id = .ok declared →
    ∀ formal ∈ declared.formals, table.Proper (table.Owns id) (unfold formal.constraint)
  summands_proper : ∀ id declared, table.get id = .ok declared →
    ∀ summands ∈ declared.summands, ∀ summand ∈ summands,
      table.Proper (table.Owns id) (unfold summand)

/-- Flat tables are a special case of regular ones. -/
theorem Flat.regular {unfold : TypeId → Ty} (flat : table.Flat unfold) : table.Regular unfold where
  __ := flat
  actuals_over id declared found parent member actual present :=
    (flat.actuals_proper id declared found parent member actual present).toOver

end FeatureTypes.FeatureTable

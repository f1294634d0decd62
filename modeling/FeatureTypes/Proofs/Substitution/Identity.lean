import FeatureTypes.Proofs.Checker.Upkeep
import FeatureTypes.Proofs.Substitution.Untouched

/-!
# Substituting formals by themselves

The formals of a feature, taken as types, are actuals that change nothing, if open formals
stand only where they are spliced.
-/

namespace FeatureTypes

variable {position : Nat} {formal : Formal} {table : FeatureTable}

/-! ## Where formals stand -/

namespace Ty

/-- The type is one of the formals, boxed or not. -/
def IsFormalIn (formals : FormalId → Prop) : Ty → Prop
  | .formal id _ => formals id
  | _ => False

/-- None of the types but the last is one of the formals, and the last one is not if boxed. -/
def OnlyLast (formals : FormalId → Prop) : List Ty → Prop
  | [] => True
  | ty :: rest =>
    (ty.IsFormalIn formals → rest = [] ∧ ty.isRef = false) ∧ OnlyLast formals rest

/-- Of the parts of the type, if any, one of the formals is at most the last argument, and
then unboxed. -/
def RootTrails (formals : FormalId → Prop) : Ty → Prop
  | .applied _ args outer _ _ =>
    OnlyLast formals args ∧ ∀ around ∈ outer, ¬ around.IsFormalIn formals
  | _ => True

/-- The formals occur in the type just as last arguments, unboxed. -/
def Trails (formals : FormalId → Prop) (ty : Ty) : Prop :=
  ¬ ty.IsFormalIn formals ∧ ∀ part ∈ ty.parts, part.RootTrails formals

section

variable (formals : FormalId → Prop) [DecidablePred formals]

instance : DecidablePred (IsFormalIn formals)
  | .formal id _ => inferInstanceAs (Decidable (formals id))
  | .applied _ _ _ _ _ | .error | .void | .undefined => inferInstanceAs (Decidable False)

instance decidableOnlyLast : DecidablePred (OnlyLast formals)
  | [] => inferInstanceAs (Decidable True)
  | ty :: rest =>
    have := decidableOnlyLast rest
    inferInstanceAs (Decidable
      ((ty.IsFormalIn formals → rest = [] ∧ ty.isRef = false) ∧ OnlyLast formals rest))

instance : DecidablePred (RootTrails formals)
  | .applied _ args outer _ _ => inferInstanceAs (Decidable
      (OnlyLast formals args ∧ ∀ around ∈ outer, ¬ around.IsFormalIn formals))
  | .formal _ _ | .error | .void | .undefined => inferInstanceAs (Decidable True)

instance (ty : Ty) : Decidable (ty.Trails formals) :=
  inferInstanceAs (Decidable (_ ∧ ∀ part ∈ ty.parts, part.RootTrails formals))

end

theorem Trails.child {formals : FormalId → Prop} {ty child : Ty} (trails : ty.Trails formals)
    (member : child ∈ ty.children) (other : ¬ child.IsFormalIn formals) : child.Trails formals :=
  ⟨other, fun part occurs => trails.2 part (mem_parts_of_mem_children member occurs)⟩

end Ty

/-- The formal is an open one of `owner`. -/
def FeatureTable.OwnsOpen (table : FeatureTable) (owner : FeatureId) (id : FormalId) : Prop :=
  id.feature = owner ∧ table.DeclaresOpen id

instance (table : FeatureTable) (owner : FeatureId) : DecidablePred (table.OwnsOpen owner) :=
  fun _ => inferInstanceAs (Decidable (_ ∧ _))

theorem Feature.accepts_length (declared : Feature) :
    declared.accepts declared.formals.length = true := by
  rw [accepts]
  split <;> simp

/-! ## Actuals that are the formals -/

/-- The formals, taken as types. -/
def Feature.formalTypes (declared : Feature) : List Ty :=
  declared.formals.map fun formal => .formal formal.id false

theorem TypeStore.denote_formalTypes {types : TypeStore} (coherent : types.Coherent)
    {own : List TypeId} (held : ∀ ty ∈ own, types.Holds ty) {declared : Feature}
    (ownFormals : own.map types.node =
      declared.formals.map fun formal => Node.formal formal.id false) :
    List.Forall₂ types.Denotes own declared.formalTypes := by
  have denote : List.Forall₂ types.Denotes own (own.map types.tree) :=
    Denotes.forall₂_iff.mpr ⟨held, rfl⟩
  have areFormals := Denotes.map_node_eq_iff denote coherent (declared.formals.map Formal.id)
  simp only [List.map_map, Function.comp_def] at areFormals
  rwa [areFormals.mp ownFormals] at denote

namespace Filling

variable {owner : FeatureId} {declared : Feature}

section

variable (found : table.get owner = .ok declared)

include found

theorem exists_of_isFormalIn {ty : Ty} (isOpen : ty.IsFormalIn (table.OwnsOpen owner)) :
    ∃ position formal boxed, ty = .formal ⟨owner, position⟩ boxed ∧
      declared.formals[position]? = some formal ∧ formal.isOpen = true := by
  cases ty with
  | formal id boxed =>
    obtain ⟨feature, position⟩ := id
    obtain ⟨rfl, isOpen⟩ := isOpen
    obtain ⟨formal, present, isOpen⟩ :=
      (Option.any_eq_true _ _).mp ((FeatureTable.declaresOpen_iff found position).mp isOpen)
    exact ⟨position, formal, boxed, rfl, present, isOpen⟩
  | _ => exact isOpen.elim

theorem exists_of_fillable {id : FormalId} (fillable : table.Fillable owner id)
    (notOpen : ¬ table.OwnsOpen owner id) (belongs : id.feature = owner) :
    ∃ formal, declared.formals[id.index]? = some formal ∧ formal.isOpen = false := by
  obtain ⟨declared', found', bound⟩ := fillable.1 belongs
  obtain ⟨feature, position⟩ := id
  obtain rfl := belongs
  obtain rfl := Except.ok.inj (found.symm.trans found')
  refine ⟨declared.formals[position], List.getElem?_eq_getElem bound, ?_⟩
  rw [← Bool.not_eq_true]
  intro isOpen
  apply notOpen
  refine ⟨rfl, (FeatureTable.declaresOpen_iff found position).mpr ?_⟩
  rwa [List.getElem?_eq_getElem bound]

theorem openPosition?_eq_none_of_not_isFormalIn (actuals : List Ty) {ty : Ty}
    (notOpen : ¬ ty.IsFormalIn (table.OwnsOpen owner)) :
    (ofFeature owner declared actuals).openPosition? ty = none := by
  cases ty with
  | formal id boxed =>
    obtain ⟨feature, position⟩ := id
    apply if_neg
    rintro ⟨rfl, isOpen⟩
    exact notOpen ⟨rfl, (FeatureTable.declaresOpen_iff found position).mpr isOpen⟩
  | _ => rfl

end

variable (numbered : declared.Numbered owner)

include numbered

theorem drop_formalTypes (present : declared.formals[position]? = some formal)
    (isOpen : formal.isOpen = true) :
    declared.formalTypes.drop position = [.formal ⟨owner, position⟩ false] := by
  have ⟨idEq, isLast⟩ := numbered position formal present
  have bound := (List.getElem?_eq_some_iff.mp present).choose
  have formalEq : declared.formals[position] = formal :=
    (List.getElem?_eq_some_iff.mp present).choose_spec
  rw [Feature.formalTypes, ← List.map_drop, List.drop_eq_getElem_cons bound,
    List.drop_eq_nil_of_le (isLast isOpen).ge, formalEq, List.map_singleton, idEq]

end Filling

namespace Checker

open Filter

/-! ## Smooth substitution of formals by themselves -/

section

variable {start : Checker} {admits : Ty → Prop} {owner : FeatureId} {declared : Feature}
  (found : start.features.get owner = .ok declared) (numbered : declared.Numbered owner)

include found numbered

theorem substituteEach_formalTypes
    {call : (owner : FeatureId) → (actuals : List Ty) → (target : Ty) → Option Ty} {list : List Ty}
    (onlyLast : Ty.OnlyLast (start.features.OwnsOpen owner) list)
    (keeps : ∀ ty ∈ list, ¬ ty.IsFormalIn (start.features.OwnsOpen owner) →
      call owner declared.formalTypes ty = some ty) :
    start.signature.substituteEach call owner declared.formalTypes list = some list := by
  induction list with
  | nil => rfl
  | cons ty rest ih =>
    rw [List.forall_mem_cons] at keeps
    rw [Signature.substituteEach, signature_trailingOpen? found declared.formalTypes]
    by_cases isOpen : ty.IsFormalIn (start.features.OwnsOpen owner)
    · obtain ⟨rfl, unboxed⟩ := onlyLast.1 isOpen
      obtain ⟨position, formal, boxed, rfl, present, formalOpen⟩ :=
        Filling.exists_of_isFormalIn found isOpen
      obtain rfl : boxed = false := unboxed
      have trailing : (Filling.ofFeature owner declared declared.formalTypes).trailing?
          (.formal ⟨owner, position⟩ false) [] = some position := by
        rw [Filling.trailing?, List.isEmpty_nil, if_pos rfl,
          Filling.openPosition?_ofFeature present, formalOpen, if_pos rfl]
      rw [trailing]
      exact congrArg some (Filling.drop_formalTypes numbered present formalOpen)
    · have notTrailing : (Filling.ofFeature owner declared declared.formalTypes).trailing? ty
          rest = none :=
        Filling.trailing?_eq_none _
          (Filling.openPosition?_eq_none_of_not_isFormalIn found _ isOpen) rest
      rw [notTrailing, ih onlyLast.2 keeps.2]
      simp [keeps.1 isOpen]

variable (wellFormed : start.WellFormed) (grounded : start.features.Grounded owner)

include wellFormed grounded

theorem smooth_formalTypes {ty : Ty}
    (covered : ty.Among (start.features.Fillable owner) start.features.DeclaresPlain)
    (trails : ty.Trails (start.features.OwnsOpen owner)) :
    start.smooth admits owner declared.formalTypes ty = some ty := by
  have fits : declared.accepts declared.formalTypes.length = true := by
    rw [Feature.formalTypes, List.length_map]
    exact declared.accepts_length
  induction ty using Ty.childrenInduction with
  | step ty childrenKept =>
    cases mentions : ty.mentionsFormal with
    | false => exact smooth_of_closed ⟨declared, found, fits⟩ mentions
    | true =>
      have root := covered ty (Ty.self_mem_parts ty)
      have kept := fun child member other => childrenKept child member (covered.child member)
        (trails.child member other)
      cases ty with
      | formal id boxed =>
        rw [smooth_formal wellFormed grounded found root boxed fits]
        by_cases belongs : id.feature = owner
        · obtain ⟨formal, present, closed⟩ :=
            Filling.exists_of_fillable found root trails.1 belongs
          have isActual : declared.formalTypes[id.index]? = some (.formal id false) := by
            rw [Feature.formalTypes, List.getElem?_map, present, Option.map_some,
              (numbered _ formal present).1, ← belongs]
          rw [formalUnder_of_closed found belongs present closed isActual]
          cases boxed with
          | false => rfl
          | true => exact Demands.replace_self _ _
        · rw [Signature.formalUnder, if_pos belongs]
          rfl
      | applied feature args outer isRef isThis =>
        obtain ⟨onlyLast, outerClosed⟩ := trails.2 _ (Ty.self_mem_parts _)
        refine smooth_applied_self found fits mentions
          (parents_keep_of_fillable wellFormed grounded found covered) root ?_ fun around present =>
            kept around (List.mem_append_right _ (Option.mem_toList.mpr present))
              (outerClosed around present)
        rw [substituteList_eq found]
        split
        next isFormals => rw [isFormals, Feature.formalTypes]
        next =>
          exact substituteEach_formalTypes found numbered onlyLast
            fun arg member => kept arg (List.mem_append_left _ member)
      | _ => cases mentions

end

/-- The formals of a feature are substituted by themselves: this gives the type itself and
changes neither types nor reports. -/
theorem substitute_own_formals
    (start : Checker) (reachable : start.Reachable) (acyclic : start.features.Acyclic)
    (accepted : ∀ id declared, start.features.get id = .ok declared →
      ∀ parent ∈ declared.parents,
        start.features.Accepts parent.ancestor parent.actuals.length)
    {owner : FeatureId} {declared : Feature} (found : start.features.get owner = .ok declared)
    (own : List TypeId) (target : TypeId) (held : ∀ ty ∈ target :: own, start.types.Holds ty)
    (ownFormals : own.map start.types.node =
      declared.formals.map fun formal => Node.formal formal.id false)
    (covered : (start.types.tree target).Among (start.features.Fillable owner)
      start.features.DeclaresPlain)
    (trails : (start.types.tree target).Trails (start.features.OwnsOpen owner)) :
    ∃ enough, ∀ checker : Checker, checker.types = start.types →
      checker.features = start.features → checker.Faithful → enough ≤ checker.options.depthLimit →
        ∃ after, (substitute owner own target).run checker = .ok target after ∧
          checker.Untouched after := by
  have wellFormed := reachable.sound.toWellFormed
  have coherent := wellFormed.types_canonical.toCoherent
  have grounded : start.features.Grounded owner :=
    ⟨fun id _ => acyclic id, fun id declared _ => accepted id declared⟩
  rw [List.forall_mem_cons] at held
  have denote : List.Forall₂ start.types.Denotes own declared.formalTypes :=
    TypeStore.denote_formalTypes coherent held.2 ownFormals
  -- No types may be made, so nothing is reported either.
  have settled : start.smooth (fun _ => False) owner declared.formalTypes
      (start.types.tree target) = some (start.types.tree target) :=
    smooth_formalTypes found (reachable.built.orderly.each owner declared found).numbered wellFormed
      grounded covered trails
  obtain ⟨enough, realizes⟩ := eventually_atTop.mp (eventually_substitute settled)
  refine ⟨enough, fun checker typesEq featuresEq faithful deep => ?_⟩
  have resumes := Resumes.of_faithful typesEq featuresEq faithful fun _ => False
  rw [← typesEq] at denote held
  have denotes : checker.types.Denotes target (start.types.tree target) :=
    ⟨held.1, by rw [typesEq]⟩
  obtain ⟨result, after, run, resumes', onward, resultDenotes⟩ :=
    (realizes _ deep resumes denote denotes).exists_run
  have typesEq' := resumes'.frozen fun _ => id
  rw [typesEq'] at resultDenotes
  obtain rfl := (resultDenotes.inj denotes (typesEq ▸ coherent)).mpr rfl
  exact ⟨after, run, typesEq', onward.features_eq, onward.options_eq, (resumes'.quiet id).1⟩

/-- A row has an open formal and inherits from a tuple, which has one too.  The target has an
open formal at the end of two lists of arguments, a boxed formal, an error type and a formal of
another feature. -/
theorem substitute_own_formals_row :
    let start := afterAll
      [.declare (.feature "any" none true), .construct (.instantiate ⟨1⟩ []),
        .declare (.feature "tuple" none true), .declare (.formal ⟨2⟩ "T" ⟨3⟩ true {}),
        .declare (.feature "row" none true), .declare (.formal ⟨3⟩ "A" ⟨3⟩ false {}),
        .declare (.formal ⟨3⟩ "N" ⟨3⟩ true {}), .declare (.parent ⟨3⟩ ⟨2⟩ [⟨5⟩, ⟨6⟩]),
        .declare (.feature "other" none false), .declare (.formal ⟨4⟩ "X" ⟨3⟩ false {}),
        .construct (.asRef ⟨5⟩),
        .construct (.applied ⟨4⟩ [⟨9⟩, .error, ⟨7⟩] (some ⟨8⟩) false),
        .construct (.applied ⟨2⟩ [⟨10⟩, ⟨6⟩] none false)] {}
    start.options.memoize = true ∧ start.features.OwnsOpen ⟨3⟩ ⟨⟨3⟩, 1⟩ ∧
      (start.types.tree ⟨11⟩).Trails (start.features.OwnsOpen ⟨3⟩) ∧
      ∃ enough, ∀ depthLimit ≥ enough, ∃ after,
        (substitute ⟨3⟩ [⟨5⟩, ⟨6⟩] ⟨11⟩).run (start.limited depthLimit) = .ok ⟨11⟩ after ∧
        after.types.size = start.types.size := by
  intro start
  have reachable : start.Reachable := (Reachable.initial {} {}).steps (by decide +kernel)
  have acyclic : start.features.Acyclic :=
    FeatureTable.acyclic_of_index_lt (FeatureTable.forall_declared (by decide +kernel))
  have closed : ∀ id declared, start.features.get id = .ok declared →
      id ∈ [(⟨3⟩ : FeatureId), ⟨2⟩] → ∀ parent ∈ declared.parents,
        parent.ancestor ∈ [(⟨3⟩ : FeatureId), ⟨2⟩] :=
    FeatureTable.forall_declared (by decide +kernel)
  have listed : start.features.features[3]?.map (fun declared =>
      declared.formals.map fun formal => Node.formal formal.id false) =
        some ([(⟨5⟩ : TypeId), ⟨6⟩].map start.types.node) := by decide +kernel
  obtain ⟨declared, present, ownFormals⟩ := Option.map_eq_some_iff.mp listed
  have trails : (start.types.tree ⟨11⟩).Trails (start.features.OwnsOpen ⟨3⟩) := by decide +kernel
  have mentioned : (start.types.tree ⟨11⟩).Among
      (fun id => start.features.Owns ⟨3⟩ id ∨ id.feature ∉ [(⟨3⟩ : FeatureId), ⟨2⟩])
      start.features.DeclaresPlain := by decide +kernel
  have covered := mentioned.mono fun id either => either.elim FeatureTable.Owns.fillable
    fun foreign => FeatureTable.Spares.fillable fun inherits => foreign
      (FeatureTable.mem_of_inherits closed (by simp) inherits)
  obtain ⟨enough, runs⟩ := substitute_own_formals start reachable acyclic
    (FeatureTable.forall_declared (by decide +kernel)) (FeatureTable.get_eq_ok_iff.mpr present)
    [⟨5⟩, ⟨6⟩] ⟨11⟩ (by decide +kernel) ownFormals.symm covered trails
  have faithful : start.Faithful := reachable.faithful (by decide +kernel)
  refine ⟨by decide +kernel, by decide +kernel, trails, enough, fun depthLimit deep => ?_⟩
  clear_value start
  obtain ⟨after, run, untouched⟩ :=
    runs (start.limited depthLimit) rfl rfl (faithful.limited depthLimit) deep
  exact ⟨after, run, congrArg TypeStore.size untouched.types_eq⟩

end Checker

end FeatureTypes

import FeatureTypes.Proofs.Checker.Run
import FeatureTypes.Proofs.Store.Denotes
import FeatureTypes.Proofs.Store.Flags
import FeatureTypes.Proofs.Ty.Filling

/-!
# Shifting formals

Shifting turns the formals of one feature into those of another, some positions further on.
-/

namespace FeatureTypes

variable {source target : FeatureId} {offset : Nat} {ty : Ty}

/-! ## Types without formals -/

theorem Ty.replace_of_closed (closed : ty.mentionsFormal = false) (replacement : FormalId → Ty) :
    ty.replace replacement = ty :=
  replace_eq_self_iff.mpr fun _ _ occurs => absurd rfl (List.any_eq_false.mp closed _ occurs)

/-! ## Shifted formals -/

namespace Ty

theorem shift_foreign {id : FormalId} (foreign : id.feature ≠ source) (target : FeatureId)
    (offset : Nat) (boxed : Bool) :
    (Ty.formal id boxed).shift source target offset = .formal id boxed := by
  cases boxed <;> simp [shift, replace, asRef, foreign]

theorem shift_of_foreign {features : FeatureId → Prop}
    (foreign : ty.Over (·.feature ≠ source) features) (target : FeatureId) (offset : Nat) :
    ty.shift source target offset = ty :=
  replace_eq_self_iff.mpr fun _ boxed occurs =>
    shift_foreign (foreign _ occurs) target offset boxed

theorem Over.shift {formals : FormalId → Prop} {features : FeatureId → Prop}
    (covered : ty.Over (fun id => id.feature = source ∧ formals ⟨target, id.index + offset⟩)
      features) : (ty.shift source target offset).Over formals features := by
  refine Over.replace (covered.mono fun id own => ?_)
  rw [if_pos own.1]
  exact over_formal_iff.mpr own.2

/-- A type changes just if one of its formals does. -/
theorem shift_eq_self_iff :
    ty.shift source target offset = ty ↔
      ∀ position boxed, Ty.formal ⟨source, position⟩ boxed ∈ ty.parts →
        (⟨target, position + offset⟩ : FormalId) = ⟨source, position⟩ := by
  rw [shift, replace_eq_self_iff]
  constructor
  · intro stays position boxed occurs
    exact (formal.inj ((shift_own rfl target offset boxed).symm.trans
      (stays ⟨source, position⟩ boxed occurs))).1
  · rintro stays ⟨feature, position⟩ boxed occurs
    by_cases own : feature = source
    · subst own
      exact (shift_own rfl target offset boxed).trans (by rw [stays position boxed occurs])
    · exact shift_foreign own target offset boxed

/-- If the type is a formal of `source`, it is not too far up to be shifted. -/
def ShiftsAlone (source : FeatureId) (offset : Nat) : Ty → Prop
  | .formal id _ => id.feature = source → id.index + offset < FormalId.indexBound
  | _ => True

instance (source : FeatureId) (offset : Nat) : DecidablePred (ShiftsAlone source offset)
  | .formal _ _ => inferInstanceAs (Decidable (_ → _))
  | .applied _ _ _ _ _ | .error | .void | .undefined => isTrue trivial

/-- The formals of `source` in the type are not too far up to be shifted. -/
def Shiftable (source : FeatureId) (offset : Nat) (ty : Ty) : Prop :=
  ∀ part ∈ ty.parts, part.ShiftsAlone source offset

instance (source : FeatureId) (offset : Nat) : DecidablePred (Shiftable source offset) :=
  fun _ => inferInstanceAs (Decidable (∀ _ ∈ _, _))

theorem shiftable_iff :
    ty.Shiftable source offset ↔ ∀ position boxed, Ty.formal ⟨source, position⟩ boxed ∈ ty.parts →
      position + offset < FormalId.indexBound := by
  constructor
  · exact fun shiftable position boxed occurs => shiftable _ occurs rfl
  · intro bounded part occurs
    cases part with
    | formal id boxed =>
      rintro rfl
      exact bounded id.index boxed occurs
    | _ => trivial

theorem Shiftable.of_closed (closed : ty.mentionsFormal = false) : ty.Shiftable source offset :=
  shiftable_iff.mpr fun _ _ occurs => absurd rfl (List.any_eq_false.mp closed _ occurs)

theorem Over.shiftable {formals : FormalId → Prop} {features : FeatureId → Prop}
    (covered : ty.Over formals features)
    (bounded : ∀ id, formals id → id.feature = source → id.index + offset < FormalId.indexBound) :
    ty.Shiftable source offset :=
  shiftable_iff.mpr fun _ _ occurs => bounded _ (covered _ occurs) rfl

theorem shiftable_applied_iff {feature : FeatureId} {args : List Ty} {outer : Option Ty}
    {isRef isThis : Bool} :
    (Ty.applied feature args outer isRef isThis).Shiftable source offset ↔
      (∀ arg ∈ args, arg.Shiftable source offset) ∧
        ∀ around ∈ outer, around.Shiftable source offset := by
  constructor
  · intro shiftable
    exact ⟨fun arg member part occurs => shiftable part (mem_parts_of_mem_args member occurs),
      fun around present part occurs =>
        shiftable part (mem_parts_applied.mpr (Or.inr (Or.inr ⟨around, present, occurs⟩)))⟩
  · rintro ⟨argsShift, outerShifts⟩ part occurs
    rcases mem_parts_applied.mp occurs with rfl | ⟨arg, member, inArg⟩ | ⟨around, present, inOuter⟩
    · trivial
    · exact argsShift arg member part inArg
    · exact outerShifts around present part inOuter

end Ty

namespace Checker

/-! ## Runs -/

/-- The operation does nothing but add types.  It comes to a result as `post` says if all
positions fit, and overflows otherwise. -/
def Shifts {α : Type} (checker : Checker) (operation : CheckM α) (fits : Prop)
    (post : TypeStore → α → Prop) : Prop :=
  ∃ types, checker.types.Extends types ∧ types.Canonical ∧
    ((fits ∧ ∃ result, operation.run checker = .ok result { checker with types } ∧
        post types result) ∨
      (¬ fits ∧ operation.run checker = .error .formalIndexOverflow { checker with types }))

namespace Shifts

variable {α β : Type} {checker : Checker} {fits fits' : Prop}

theorem pure (canonical : checker.types.Canonical) (fit : fits) {result : α}
    {post : TypeStore → α → Prop} (holds : post checker.types result) :
    checker.Shifts (Pure.pure result) fits post :=
  ⟨checker.types, .refl _, canonical, Or.inl ⟨fit, result, rfl, holds⟩⟩

theorem look {operation : CheckM α} {next : α → CheckM β} {post : TypeStore → β → Prop}
    {result : α} (run : operation.run checker = .ok result checker)
    (rest : checker.Shifts (next result) fits post) :
    checker.Shifts (operation >>= next) fits post := by
  simp only [Shifts, EStateM.run_bind, run]
  exact rest

section

variable {operation : CheckM α} {next : α → CheckM β} {middle : TypeStore → α → Prop}
  {post : TypeStore → β → Prop} (first : checker.Shifts operation fits middle)

include first

theorem bind
    (rest : ∀ types result, checker.types.Extends types → types.Canonical → middle types result →
      Shifts { checker with types } (next result) fits' post) :
    checker.Shifts (operation >>= next) (fits ∧ fits') post := by
  simp only [Shifts, EStateM.run_bind]
  obtain ⟨types, extension, canonical, ⟨fit, result, run, holds⟩ | ⟨unfit, run⟩⟩ := first
  · obtain ⟨types', extension', canonical', outcome⟩ := rest types result extension canonical holds
    refine ⟨types', extension.trans extension', canonical', ?_⟩
    simpa only [run, fit, true_and] using outcome
  · exact ⟨types, extension, canonical, Or.inr ⟨fun both => unfit both.1, by rw [run]⟩⟩

/-- What follows needs no room for further positions. -/
theorem finish
    (rest : ∀ types result, checker.types.Extends types → types.Canonical → middle types result →
      Shifts { checker with types } (next result) True post) :
    checker.Shifts (operation >>= next) fits post := by
  simpa only [and_true] using first.bind rest

end

theorem makes (fit : fits) {edit : TypeStore → TypeId × TypeStore} {ty : Ty}
    (made : checker.types.Makes ty (edit checker.types)) :
    checker.Shifts (onTypes edit) fits fun types result => types.Denotes result ty :=
  ⟨_, made.extension, made.canonical, Or.inl ⟨fit, _, run_onTypes checker _, made.denotes⟩⟩

theorem mapM {operation : TypeId → CheckM TypeId} (value : Ty → Ty) {fits : Ty → Prop}
    (canonical : checker.types.Canonical) {ids : List TypeId} {list : List Ty}
    (denote : List.Forall₂ checker.types.Denotes ids list)
    (each : ∀ types, checker.types.Extends types → types.Canonical → ∀ id ∈ ids, ∀ ty,
      types.Denotes id ty → Shifts { checker with types } (operation id) (fits ty)
        fun types result => types.Denotes result (value ty)) :
    checker.Shifts (ids.mapM operation) (∀ ty ∈ list, fits ty) fun types results =>
      List.Forall₂ types.Denotes results (list.map value) := by
  induction ids generalizing checker list with
  | nil =>
    cases denote
    exact .pure canonical (by simp) .nil
  | cons id ids ih =>
    cases denote with
    | @cons _ ty _ list first others =>
      rw [List.mapM_cons, List.forall_mem_cons]
      refine .bind (each _ (.refl _) canonical id List.mem_cons_self ty first) ?_
      intro types result extension canonical' resultDenotes
      have coherent := canonical'.toCoherent
      have others' :=
        TypeStore.Denotes.all_of_extends others canonical.toCoherent coherent extension
      refine .finish (ih canonical' others' fun types' extension' canonical'' id member =>
        each types' (extension.trans extension') canonical'' id (List.mem_cons_of_mem _ member)) ?_
      intro types' results extension' canonical'' resultsDenote
      exact .pure canonical'' trivial
        (.cons (resultDenotes.of_extends coherent canonical''.toCoherent extension') resultsDenote)

theorem optionMapM {operation : TypeId → CheckM TypeId} (value : Ty → Ty) {fits : Ty → Prop}
    (canonical : checker.types.Canonical) {outerId : Option TypeId} {outer : Option Ty}
    (denotes : Option.Rel checker.types.Denotes outerId outer)
    (each : ∀ id ∈ outerId, ∀ ty, checker.types.Denotes id ty →
      checker.Shifts (operation id) (fits ty) fun types result =>
        types.Denotes result (value ty)) :
    checker.Shifts (outerId.mapM operation) (∀ ty ∈ outer, fits ty) fun types result =>
      Option.Rel types.Denotes result (outer.map value) := by
  cases denotes with
  | none => exact .pure canonical (by simp) .none
  | @some id ty denotes =>
    simp only [Option.mapM_some, map_eq_pure_bind, Option.mem_some_iff, forall_eq']
    refine .finish (each id rfl ty denotes) ?_
    intro types result _ canonical' resultDenotes
    exact .pure canonical' trivial (.some resultDenotes)

end Shifts

section

variable {checker : Checker} (canonical : checker.types.Canonical) {id : TypeId}
  (source target : FeatureId) (offset : Nat)

include canonical

theorem shifts_formal {formal : FormalId} {boxed : Bool}
    (denotes : checker.types.Denotes id (.formal formal boxed)) :
    checker.Shifts (shiftFormalsAt source target offset id)
      ((Ty.formal formal boxed).ShiftsAlone source offset) fun types settled =>
        ∃ result, settled = some result ∧
          types.Denotes result ((Ty.formal formal boxed).shift source target offset) := by
  have coherent := canonical.toCoherent
  refine .look (run_readTypes checker _) ?_
  rw [TypeStore.mentionsFormal_eq coherent denotes.1, denotes.2]
  refine .look (run_node checker id) ?_
  rw [denotes.node_formal coherent]
  dsimp only
  by_cases own : formal.feature = source
  · have fits : (Ty.formal formal boxed).ShiftsAlone source offset ↔
        formal.index + offset < FormalId.indexBound := by simp [Ty.ShiftsAlone, own]
    rw [if_neg (not_not.mpr own), Ty.shift_own own, fits, shiftFormal]
    split
    next fit =>
      have parts : checker.types.HoldsParts (.formal ⟨target, formal.index + offset⟩ boxed) :=
        fun child member => by cases member
      refine .look rfl (.finish (.makes fit (TypeStore.makes_intern canonical parts)) ?_)
      intro types result _ canonical' resultDenotes
      exact .pure canonical' trivial ⟨result, rfl, resultDenotes⟩
    next unfit => exact ⟨checker.types, .refl _, canonical, Or.inr ⟨unfit, rfl⟩⟩
  · rw [if_pos own, Ty.shift_foreign own]
    exact .pure canonical (fun own' => absurd own' own) ⟨id, rfl, denotes⟩

theorem shifts_transformWithin {depth : Nat} (denotes : checker.types.Denotes id ty)
    (deep : id.index < depth) :
    checker.Shifts (transformWithin (shiftFormalsAt source target offset) depth id)
      (ty.Shiftable source offset) fun types result =>
        types.Denotes result (ty.shift source target offset) := by
  induction depth generalizing checker id ty with
  | zero => exact absurd deep (Nat.not_lt_zero _)
  | succ depth ih =>
    have coherent := canonical.toCoherent
    have mentions := TypeStore.mentionsFormal_eq coherent denotes.1
    rw [denotes.2] at mentions
    rw [transformWithin]
    cases closed : ty.mentionsFormal with
    | false =>
      have visited : (shiftFormalsAt source target offset id).run checker =
          .ok (some id) checker := by
        simp only [shiftFormalsAt, EStateM.run_bind, run_readTypes, mentions, closed]
        rfl
      refine .look visited (.pure canonical (.of_closed closed) ?_)
      rwa [Ty.shift, Ty.replace_of_closed closed]
    | true =>
      cases ty with
      | formal formal boxed =>
        have alone : (Ty.formal formal boxed).Shiftable source offset ↔
            (Ty.formal formal boxed).ShiftsAlone source offset := by simp [Ty.Shiftable, Ty.parts]
        rw [alone]
        refine .finish (shifts_formal canonical source target offset denotes) ?_
        rintro types _ _ canonical' ⟨result, rfl, resultDenotes⟩
        exact .pure canonical' trivial resultDenotes
      | applied feature args outer isRef isThis =>
        obtain ⟨argIds, outerId, node, argsDenote, outerDenotes⟩ := denotes.node_applied coherent
        have visited : (shiftFormalsAt source target offset id).run checker =
            .ok none checker := by
          simp only [shiftFormalsAt, EStateM.run_bind, run_readTypes, mentions, closed]
          rw [if_neg (by simp), EStateM.run_bind, run_node, node]
          rfl
        have smaller : ∀ part ∈ argIds ++ outerId.toList, part.index < depth := by
          intro part member
          have below := coherent.child_lt id denotes.1 part (by rw [node]; exact member)
          omega
        refine .look visited (.look (run_node checker id) ?_)
        rw [node, Ty.shiftable_applied_iff, Ty.shift_applied]
        refine .bind (.mapM (Ty.shift source target offset) canonical argsDenote ?_) ?_
        · intro types _ canonical' argId member arg argDenotes
          exact ih canonical' argDenotes (smaller argId (List.mem_append_left _ member))
        intro types₁ newArgs extension₁ canonical₁ newArgsDenote
        have outerDenotes₁ := TypeStore.Denotes.outer_of_extends outerDenotes coherent
          canonical₁.toCoherent extension₁
        refine .finish (.optionMapM (Ty.shift source target offset) canonical₁ outerDenotes₁ ?_) ?_
        · intro aroundId present around aroundDenotes
          exact ih canonical₁ aroundDenotes
            (smaller aroundId (List.mem_append_right _ (Option.mem_toList.mpr present)))
        intro types₂ newOuter extension₂ canonical₂ newOuterDenotes
        have coherent₂ := canonical₂.toCoherent
        exact .makes trivial (TypeStore.makes_rebuild canonical₂
          (denotes.of_extends coherent coherent₂ (extension₁.trans extension₂))
          (TypeStore.Denotes.all_of_extends newArgsDenote canonical₁.toCoherent coherent₂
            extension₂) newOuterDenotes)
      | _ => cases closed

/-- A number is shifted as its tree is, or the shift fails. -/
theorem shifts_shiftFormals (denotes : checker.types.Denotes id ty) :
    checker.Shifts (shiftFormals source target offset id) (ty.Shiftable source offset)
      fun types result => types.Denotes result (ty.shift source target offset) :=
  shifts_transformWithin canonical source target offset denotes (Nat.lt_succ_self _)

end

end Checker

end FeatureTypes

import FeatureTypes.Proofs.Meaning.Smooth

/-!
# Operations that come to an end
-/

namespace FeatureTypes

/-! ## Failures for other reasons -/

theorem except_bind_ne_exhausted {α β : Type} {first : Except Failure α}
    {next : α → Except Failure β} (enough : first ≠ .error .depthExceeded)
    (rest : ∀ result, next result ≠ .error .depthExceeded) :
    (first >>= next) ≠ .error .depthExceeded := by
  cases first with
  | error failure => simpa [Bind.bind, Except.bind] using enough
  | ok result => exact rest result

theorem FeatureTable.get_ne_exhausted (table : FeatureTable) (id : FeatureId) :
    table.get id ≠ .error .depthExceeded := by
  unfold get
  split <;> simp

theorem FeatureTable.formalPhrase_ne_exhausted (table : FeatureTable) (id : FormalId)
    (boxed : Bool) : table.formalPhrase id boxed ≠ .error .depthExceeded := by
  have named : table.formalName id ≠ .error .depthExceeded := by
    refine except_bind_ne_exhausted (except_bind_ne_exhausted (table.get_ne_exhausted _) fun _ => by
      simp [Pure.pure, Except.pure]) fun formal => ?_
    cases formal <;> simp [Pure.pure, Except.pure]
  exact except_bind_ne_exhausted (table.get_ne_exhausted _) fun _ =>
    except_bind_ne_exhausted named fun _ => by simp [Pure.pure, Except.pure]

namespace TypeStore

variable {table : FeatureTable} {depict : Depiction}

theorem outerPhrase_ne_exhausted {outer : Option TypeId}
    (enough : ∀ ty ∈ outer, depict ty ≠ .error .depthExceeded) :
    outerPhrase depict outer ≠ .error .depthExceeded := by
  cases outer with
  | none => simp [outerPhrase]
  | some ty =>
    exact except_bind_ne_exhausted (enough ty rfl) fun _ => by simp [Pure.pure, Except.pure]

theorem argsPhrase_ne_exhausted {args : List TypeId}
    (enough : ∀ ty ∈ args, depict ty ≠ .error .depthExceeded) :
    argsPhrase depict args ≠ .error .depthExceeded := by
  induction args with
  | nil => simp [argsPhrase]
  | cons ty rest ih =>
    rw [List.forall_mem_cons] at enough
    exact except_bind_ne_exhausted enough.1 fun _ =>
      except_bind_ne_exhausted (ih enough.2) fun _ => by
        simp [Pure.pure, Except.pure]

theorem phraseWithin_ne_exhausted {types : TypeStore} (coherent : types.Coherent) {depth : Nat}
    {ty : TypeId} (held : types.Holds ty) (enough : ty.index < depth) :
    types.phraseWithin table depth ty ≠ .error .depthExceeded := by
  induction depth generalizing ty with
  | zero => exact absurd enough (Nat.not_lt_zero _)
  | succ depth ih =>
    have parts : ∀ child ∈ (types.node ty).children,
        types.phraseWithin table depth child ≠ .error .depthExceeded :=
      fun child member => ih (coherent.child_holds held member)
        (Nat.lt_of_lt_of_le (coherent.child_lt _ held child member) (Nat.le_of_lt_succ enough))
    unfold phraseWithin
    cases layer : types.node ty with
    | formal id boxed => exact table.formalPhrase_ne_exhausted id boxed
    | applied feature args outer isRef isThis =>
      rw [layer] at parts
      refine except_bind_ne_exhausted (table.get_ne_exhausted _) fun declared => ?_
      refine except_bind_ne_exhausted (outerPhrase_ne_exhausted fun around member => ?_)
        fun qualifier => except_bind_ne_exhausted (argsPhrase_ne_exhausted fun arg member => ?_)
          fun arguments => by simp [Pure.pure, Except.pure]
      · exact parts around (by simp_all [Node.children])
      · exact parts arg (by simp_all [Node.children])
    | _ => simp

/-- Showing a stored type never runs out of depth. -/
theorem display_ne_exhausted {types : TypeStore} (coherent : types.Coherent) {ty : TypeId}
    (held : types.Holds ty) : types.display table ty ≠ .error .depthExceeded :=
  except_bind_ne_exhausted (phraseWithin_ne_exhausted coherent held (Nat.lt_succ_self _))
    fun _ => by simp [Pure.pure, Except.pure]

end TypeStore

/-! ## Missing features -/

/-- The declared feature, or one without formals and parents in its place. -/
def FeatureTable.entry (table : FeatureTable) (id : FeatureId) : Feature :=
  (table.get id).toOption.getD { name := "", qualifiedName := "", outer := none, isRef := false }

namespace FeatureTable

variable {table : FeatureTable} {id : FeatureId} {declared : Feature} {parent : Parent}

theorem entry_eq (found : table.get id = .ok declared) : table.entry id = declared := by
  rw [entry, found]
  rfl

theorem get_entry_of_mem (member : parent ∈ (table.entry id).parents) :
    table.get id = .ok (table.entry id) := by
  cases found : table.get id with
  | ok declared => rw [entry_eq found]
  | error failure => simp [entry, found, Except.toOption] at member

theorem get_entry_of_getElem? {index : Nat} {formal : Formal}
    (present : (table.entry id).formals[index]? = some formal) :
    table.get id = .ok (table.entry id) := by
  cases found : table.get id with
  | ok declared => rw [entry_eq found]
  | error failure => simp [entry, found, Except.toOption] at present

theorem hasParent_of_mem (member : parent ∈ (table.entry id).parents) :
    table.HasParent id parent.ancestor :=
  ⟨_, get_entry_of_mem member, parent, member, rfl⟩

end FeatureTable

namespace Checker

/-- What the checker declares, with something in the place of each feature that is missing. -/
def completed (checker : Checker) : Signature :=
  { checker.signature with
    feature := fun id => some ((checker.features.entry id).outline checker.types.tree) }

theorem completed_feature (checker : Checker) (id : FeatureId) :
    checker.completed.feature id =
      some ((checker.features.entry id).outline checker.types.tree) :=
  rfl

/-- Missing features may be made up: the checker does not get to see them. -/
theorem follows_completed (checker : Checker) : checker.Follows checker.completed where
  feature_eq id declared found := by
    rw [completed_feature, FeatureTable.entry_eq found]
  inherits_eq := checker.follows_signature.inherits_eq

/-! ## Runs that end -/

/-- Any failure is excused but that of the depth. -/
def Terms.ending (start : Checker) : Terms start.completed where
  toDemands := .lax
  invariant checker := checker.Obeys start.completed ∧ checker.features = start.features
  excuses failure := failure ≠ .depthExceeded
  lenient := True
  obeys holds := holds.1
  unknown {_ id _} _ unknown := .inr fun exhausted =>
    FeatureTable.get_ne_exhausted _ id (exhausted ▸ unknown)
  unrelated holds unrelated := by
    rw [holds.2] at unrelated
    exact .inl (by simp [completed, signature, unrelated, Except.toOption])
  accepted strict := strict.elim
  unlimited := .inl trivial
  excused _ := ⟨trivial, fun _ => id⟩
  quiet holds obeys onward _ _ _ := ⟨obeys, onward.features_eq.trans holds.2⟩
  loud _ _ _ holds obeys onward _ := ⟨obeys, onward.features_eq.trans holds.2⟩
  made _ holds _ obeys := ⟨obeys, holds.2⟩

variable {start checker : Checker} (holds : (Terms.ending start).invariant checker)

include holds

theorem ends_display {ty : TypeId} (held : checker.types.Holds ty) :
    Realizes (.ending start) checker (display ty) (some ()) fun _ _ _ => True := by
  have run := run_display checker ty
  cases shown : checker.types.display checker.features ty with
  | ok text =>
    rw [shown] at run
    exact .known holds run trivial
  | error failure =>
    rw [shown] at run
    refine .of_error run (.inr ?_)
    rintro rfl
    exact TypeStore.display_ne_exhausted (Terms.coherent _ holds) held shown

theorem ends_recordEntry (check : Check) {ty : TypeId} (held : checker.types.Holds ty) :
    Realizes (.ending start) checker (recordEntry check ty) (some ()) fun _ _ _ => True := by
  refine .look (EStateM.run_get checker) ?_
  split
  · refine .follow (ends_display holds held) ?_
    intro after text holds' _ _
    exact .record holds' trivial _
  · exact .pure holds trivial

end Checker

end FeatureTypes

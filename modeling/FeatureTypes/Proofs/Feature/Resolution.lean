import Mathlib.Logic.Relation
import Mathlib.Order.WellFoundedSet
import FeatureTypes.Proofs.Feature.Growth
import FeatureTypes.Proofs.Ty.Replacement

/-!
# Formals seen through the inheritance graph

What a formal stands for, seen from a feature with given actuals: its actual if the feature
has it, or else what it stands for through the first parent that leads to its feature.
-/

namespace FeatureTypes.FeatureTable

variable {owner : FeatureId} {actuals : List Ty} {done rest : List Parent} {unfold : TypeId → Ty}
  {parent : Parent} {ty : Ty}

/-! ## The inheritance graph -/

/-- The feature `heir` was declared with the parent `ancestor`. -/
def HasParent (table : FeatureTable) (heir ancestor : FeatureId) : Prop :=
  ∃ declared, table.get heir = .ok declared ∧
    ∃ parent ∈ declared.parents, parent.ancestor = ancestor

instance (table : FeatureTable) (heir ancestor : FeatureId) :
    Decidable (table.HasParent heir ancestor) :=
  match found : table.get heir with
  | .ok declared => decidable_of_iff (∃ parent ∈ declared.parents, parent.ancestor = ancestor) (by
      simp [HasParent, found])
  | .error _ => isFalse (by simp [HasParent, found])

/-- The feature `heir` is `ancestor`, or inherits from it. -/
def Inherits (table : FeatureTable) : (heir ancestor : FeatureId) → Prop :=
  Relation.ReflTransGen table.HasParent

/-- No feature inherits from itself through its parents. -/
def Acyclic (table : FeatureTable) : Prop :=
  ∀ id, ¬ Relation.TransGen table.HasParent id id

variable {table : FeatureTable}

theorem inherits_iff {heir ancestor : FeatureId} {declared : Feature}
    (found : table.get heir = .ok declared) :
    table.Inherits heir ancestor ↔
      heir = ancestor ∨ ∃ parent ∈ declared.parents, table.Inherits parent.ancestor ancestor := by
  unfold Inherits
  rw [Relation.ReflTransGen.cases_head_iff]
  refine or_congr_right ⟨?_, ?_⟩
  · rintro ⟨_, ⟨declared', found', parent, member, rfl⟩, path⟩
    obtain rfl : declared' = declared := Except.ok.inj (found'.symm.trans found)
    exact ⟨parent, member, path⟩
  · rintro ⟨parent, member, path⟩
    exact ⟨parent.ancestor, ⟨declared, found, parent, member, rfl⟩, path⟩

theorem Acyclic.not_inherits (acyclic : table.Acyclic) {heir : FeatureId} {declared : Feature}
    (found : table.get heir = .ok declared) (member : parent ∈ declared.parents) :
    ¬ table.Inherits parent.ancestor heir := by
  intro path
  exact acyclic heir (.head' ⟨declared, found, parent, member, rfl⟩ path)

theorem acyclic_of_index_lt
    (earlier : ∀ id declared, table.get id = .ok declared →
      ∀ parent ∈ declared.parents, parent.ancestor.index < id.index) : table.Acyclic := by
  have smaller : ∀ {heir ancestor : FeatureId},
      Relation.TransGen table.HasParent heir ancestor → ancestor.index < heir.index := by
    intro heir ancestor path
    induction path with
    | single step =>
      obtain ⟨declared, found, parent, member, rfl⟩ := step
      exact earlier heir declared found parent member
    | tail _ step ih =>
      obtain ⟨declared, found, parent, member, rfl⟩ := step
      exact Nat.lt_trans (earlier _ declared found parent member) ih
  exact fun id path => Nat.lt_irrefl id.index (smaller path)

theorem induction_above
    (acyclic : ∀ id, table.Inherits owner id → ¬ Relation.TransGen table.HasParent id id)
    {motive : FeatureId → Prop}
    (step : ∀ heir, table.Inherits owner heir →
      (∀ ancestor, table.HasParent heir ancestor → motive ancestor) → motive heir) :
    motive owner := by
  -- Ancestry is a strict order, and so well-founded on the finitely many declared features.
  let above (ancestor heir : FeatureId) : Prop :=
    table.Inherits owner heir ∧ Relation.TransGen table.HasParent heir ancestor
  have : IsStrictOrder FeatureId above :=
    { irrefl := fun id cycle => acyclic id cycle.1 cycle.2
      trans := fun _ _ _ upper lower => ⟨lower.1, lower.2.trans upper.2⟩ }
  have finite : {id : FeatureId | id.index < table.size}.Finite :=
    (Set.finite_lt_nat table.size).preimage fun ⟨_⟩ _ ⟨_⟩ _ same => congrArg FeatureId.mk same
  have wellFounded := Set.wellFoundedOn_iff.mp (finite.wellFoundedOn : Set.WellFoundedOn _ above)
  have below : ∀ heir, table.Inherits owner heir → motive heir := by
    intro heir
    induction heir using wellFounded.induction with
    | _ heir ih =>
      intro inherits
      apply step heir inherits
      intro ancestor hasParent
      have inheritsAncestor : table.Inherits owner ancestor := inherits.tail hasParent
      by_cases declared : ancestor.index < table.size
      · have ⟨_, found, _⟩ := hasParent
        exact ih ancestor
          ⟨⟨inherits, .single hasParent⟩, declared, index_lt_size found⟩ inheritsAncestor
      · apply step ancestor inheritsAncestor
        rintro _ ⟨_, found, _⟩
        exact absurd (index_lt_size found) declared
  exact below owner .refl

/-- Induction from the ancestors down. -/
theorem Acyclic.induction (acyclic : table.Acyclic) {motive : FeatureId → Prop}
    (step : ∀ heir, (∀ ancestor, table.HasParent heir ancestor → motive ancestor) → motive heir)
    (heir : FeatureId) : motive heir :=
  induction_above (fun id _ => acyclic id) fun heir _ => step heir

/-! ## What a formal stands for -/

/-- The replacement of the formals of `owner` by actuals. -/
def ownReplacement (owner : FeatureId) (actuals : List Ty) (id : FormalId) : Ty :=
  if id.feature = owner then actuals.getD id.index .error else .formal id false

/-- What the formal `id` stands for, seen from `owner` with the given actuals. -/
inductive Resolves (table : FeatureTable) (unfold : TypeId → Ty) :
    (owner : FeatureId) → (actuals : List Ty) → (id : FormalId) → Ty → Prop
  | own {owner : FeatureId} {actuals : List Ty} {id : FormalId} {ty : Ty}
      (belongs : id.feature = owner) (present : actuals[id.index]? = some ty) :
      Resolves table unfold owner actuals id ty
  | inherited {owner : FeatureId} {declared : Feature} {before after : List Parent}
      {parent : Parent} {actuals : List Ty} {id : FormalId} {ty : Ty}
      (found : table.get owner = .ok declared)
      (parents_eq : declared.parents = before ++ parent :: after)
      (earlier : ∀ other ∈ before, ¬ table.Inherits other.ancestor id.feature)
      (inherits : table.Inherits parent.ancestor id.feature)
      (above : Resolves table unfold parent.ancestor (parent.actuals.map unfold) id ty) :
      Resolves table unfold owner actuals id (ty.replace (ownReplacement owner actuals))
  | unrelated {owner : FeatureId} {actuals : List Ty} {id : FormalId}
      (unrelated : ¬ table.Inherits owner id.feature) :
      Resolves table unfold owner actuals id (.formal id false)

theorem first_unique {α : Type} {property : α → Prop} {before before' after after' : List α}
    {first first' : α} (split_eq : before ++ first :: after = before' ++ first' :: after')
    (earlier : ∀ other ∈ before, ¬ property other) (holds : property first)
    (earlier' : ∀ other ∈ before', ¬ property other) (holds' : property first') :
    first' = first := by
  induction before generalizing before' with
  | nil =>
    cases before' with
    | nil => exact (List.cons.inj split_eq).1.symm
    | cons other rest =>
      obtain ⟨rfl, _⟩ := List.cons.inj split_eq
      exact absurd holds (earlier' first List.mem_cons_self)
  | cons head tail ih =>
    cases before' with
    | nil =>
      obtain ⟨rfl, _⟩ := List.cons.inj split_eq
      exact absurd holds' (earlier head List.mem_cons_self)
    | cons other rest =>
      obtain ⟨rfl, rest_eq⟩ := List.cons.inj split_eq
      exact ih rest_eq (List.forall_mem_cons.mp earlier).2
        (List.forall_mem_cons.mp earlier').2

/-- A formal stands for one type at most. -/
theorem Resolves.unique (acyclic : table.Acyclic) {id : FormalId} {ty' : Ty}
    (resolves : table.Resolves unfold owner actuals id ty)
    (resolves' : table.Resolves unfold owner actuals id ty') : ty' = ty := by
  induction resolves generalizing ty' with
  | own belongs present =>
    cases resolves' with
    | own _ present' => exact Option.some.inj (present'.symm.trans present)
    | inherited found parents_eq _ inherits =>
      rw [belongs] at inherits
      exact absurd inherits (acyclic.not_inherits found (by simp [parents_eq]))
    | unrelated unrelated => exact absurd (belongs ▸ .refl) unrelated
  | inherited found parents_eq earlier inherits _ ih =>
    cases resolves' with
    | own belongs =>
      rw [belongs] at inherits
      exact absurd inherits (acyclic.not_inherits found (by simp [parents_eq]))
    | inherited found' parents_eq' earlier' inherits' above' =>
      obtain rfl := Except.ok.inj (found.symm.trans found')
      obtain rfl := first_unique (parents_eq.symm.trans parents_eq') earlier inherits earlier'
        inherits'
      rw [ih above']
    | unrelated unrelated =>
      exact absurd ((inherits_iff found).mpr (.inr ⟨_, by simp [parents_eq], inherits⟩))
        unrelated
  | unrelated unrelated =>
    cases resolves' with
    | own belongs => exact absurd (belongs ▸ .refl) unrelated
    | inherited found parents_eq _ inherits =>
      exact absurd ((inherits_iff found).mpr (.inr ⟨_, by simp [parents_eq], inherits⟩))
        unrelated
    | unrelated => rfl

/-! ## Regular tables -/

/-- The table declares the feature. -/
def Declares (table : FeatureTable) (id : FeatureId) : Prop :=
  id.index < table.size

/-- The table declares the formal. -/
def DeclaresFormal (table : FeatureTable) (id : FormalId) : Prop :=
  ∃ declared, table.get id.feature = .ok declared ∧ id.index < declared.formals.length

def DeclaresOpen (table : FeatureTable) (id : FormalId) : Prop :=
  ∃ declared, table.get id.feature = .ok declared ∧
    declared.formals[id.index]?.any Formal.isOpen = true

/-- There are as many actuals as `owner` has formals. -/
def Fits (table : FeatureTable) (owner : FeatureId) (count : Nat) : Prop :=
  ∃ declared, table.get owner = .ok declared ∧ count = declared.formals.length

instance (table : FeatureTable) : DecidablePred table.Declares :=
  fun id => inferInstanceAs (Decidable (id.index < table.size))

instance (table : FeatureTable) : DecidablePred table.DeclaresFormal := fun id =>
  match found : table.get id.feature with
  | .ok declared => decidable_of_iff (id.index < declared.formals.length) (by
      simp [DeclaresFormal, found])
  | .error _ => isFalse (by simp [DeclaresFormal, found])

instance (table : FeatureTable) : DecidablePred table.DeclaresOpen := fun id =>
  match found : table.get id.feature with
  | .ok declared => decidable_of_iff (declared.formals[id.index]?.any Formal.isOpen = true) (by
      simp [DeclaresOpen, found])
  | .error _ => isFalse (by simp [DeclaresOpen, found])

theorem declaresOpen_iff {table : FeatureTable} {declared : Feature}
    (found : table.get owner = .ok declared) (position : Nat) :
    table.DeclaresOpen ⟨owner, position⟩ ↔
      declared.formals[position]?.any Formal.isOpen = true := by
  simp [DeclaresOpen, found]

instance (table : FeatureTable) (owner : FeatureId) (count : Nat) :
    Decidable (table.Fits owner count) :=
  match found : table.get owner with
  | .ok declared => decidable_of_iff (count = declared.formals.length) (by simp [Fits, found])
  | .error _ => isFalse (by simp [Fits, found])

/-- The formal is declared, unless it belongs neither to `owner` nor to an ancestor of
`owner`. -/
def Resolvable (table : FeatureTable) (owner : FeatureId) (id : FormalId) : Prop :=
  table.Inherits owner id.feature → table.DeclaresFormal id

/-- A table without open formals and companions, whose inheritance graph has no cycles,
and in which every parent has fitting actuals that are made of the formals of the
heir. -/
structure Regular (table : FeatureTable) (unfold : TypeId → Ty) : Prop where
  acyclic : table.Acyclic
  formals_closed : ∀ id declared, table.get id = .ok declared →
    ∀ formal ∈ declared.formals, formal.isOpen = false
  not_companion : ∀ id declared, table.get id = .ok declared → declared.isCompanion = false
  actuals_fit : ∀ id declared, table.get id = .ok declared →
    ∀ parent ∈ declared.parents, table.Fits parent.ancestor parent.actuals.length
  actuals_over : ∀ id declared, table.get id = .ok declared →
    ∀ parent ∈ declared.parents, ∀ actual ∈ parent.actuals,
      (unfold actual).Over (fun formal => formal.feature = id ∧ table.DeclaresFormal formal)
        table.Declares

theorem exists_actual {id : FormalId} (fits : table.Fits owner actuals.length)
    (belongs : id.feature = owner) (declaresFormal : table.DeclaresFormal id) :
    ∃ actual, actuals[id.index]? = some actual ∧ ownReplacement owner actuals id = actual := by
  obtain ⟨declared, found, lengthEq⟩ := fits
  obtain ⟨declared', found', bound⟩ := declaresFormal
  rw [belongs] at found'
  obtain rfl := Except.ok.inj (found.symm.trans found')
  rw [← lengthEq] at bound
  refine ⟨actuals[id.index], List.getElem?_eq_getElem bound, ?_⟩
  rw [ownReplacement, if_pos belongs, List.getD_eq_getElem?_getD,
    List.getElem?_eq_getElem bound, Option.getD_some]

theorem exists_first {α : Type} {property : α → Prop} {list : List α}
    (some_holds : ∃ item ∈ list, property item) :
    ∃ before first after, list = before ++ first :: after ∧
      (∀ other ∈ before, ¬ property other) ∧ property first := by
  induction list with
  | nil => simp at some_holds
  | cons head tail ih =>
    by_cases holds : property head
    · exact ⟨[], head, tail, rfl, by simp, holds⟩
    · obtain ⟨before, first, after, rfl, earlier, first_holds⟩ :=
        ih (by simpa [holds] using some_holds)
      exact ⟨head :: before, first, after, rfl, by simpa [holds] using earlier, first_holds⟩

section

variable {unfold : TypeId → Ty} (regular : table.Regular unfold)

include regular

/-- In a regular table a formal of an ancestor always stands for a type. -/
theorem Regular.exists_resolves {id : FormalId} (fits : table.Fits owner actuals.length)
    (resolvable : table.Resolvable owner id) : ∃ ty, table.Resolves unfold owner actuals id ty := by
  induction owner using regular.acyclic.induction generalizing actuals with
  | step owner ih =>
    have ⟨declared, found, _⟩ := fits
    by_cases related : table.Inherits owner id.feature
    · rcases (inherits_iff found).mp related with same | throughParent
      · obtain ⟨actual, present, _⟩ := exists_actual fits same.symm (resolvable related)
        exact ⟨actual, .own same.symm present⟩
      · obtain ⟨before, parent, after, split, earlier, inherits⟩ := exists_first throughParent
        have member : parent ∈ declared.parents := by simp [split]
        obtain ⟨ty, above⟩ := @ih parent.ancestor
          ⟨declared, found, parent, member, rfl⟩ (parent.actuals.map unfold)
          (by simpa using regular.actuals_fit owner declared found parent member)
          fun _ => resolvable related
        exact ⟨_, .inherited found split earlier inherits above⟩
    · exact ⟨_, .unrelated related⟩

theorem Resolves.over_formals {id : FormalId} {formals : FormalId → Prop}
    (resolves : table.Resolves unfold owner actuals id ty) (fits : table.Fits owner actuals.length)
    (inherits : table.Inherits owner id.feature)
    (covered : ∀ actual ∈ actuals, actual.Over formals table.Declares) :
    ty.Over formals table.Declares := by
  induction resolves generalizing formals with
  | own _ present => exact covered _ (List.mem_of_getElem? present)
  | unrelated unrelated => exact absurd inherits unrelated
  | @inherited owner declared before after parent actuals id ty found split _ inheritsAbove _
      ih =>
      have member : parent ∈ declared.parents := by simp [split]
      have overHeir := ih
        (by simpa using regular.actuals_fit owner declared found parent member) inheritsAbove
        (by simpa using regular.actuals_over owner declared found parent member)
      apply Ty.Over.replace
      apply overHeir.mono
      rintro formal ⟨belongs, declaresFormal⟩
      obtain ⟨actual, present, replaced⟩ := exists_actual fits belongs declaresFormal
      rw [replaced]
      exact covered actual (List.mem_of_getElem? present)

end

/-! ## Replacement as a function -/

open Classical in
/-- What the formal `id` stands for, seen from `owner` with the given actuals, as a
function. -/
noncomputable def resolution (table : FeatureTable) (unfold : TypeId → Ty) (owner : FeatureId)
    (actuals : List Ty) (id : FormalId) : Ty :=
  if stands : ∃ ty, table.Resolves unfold owner actuals id ty then stands.choose
  else .formal id false

theorem resolution_eq (acyclic : table.Acyclic) {id : FormalId}
    (resolves : table.Resolves unfold owner actuals id ty) :
    table.resolution unfold owner actuals id = ty := by
  have stands : ∃ ty, table.Resolves unfold owner actuals id ty := ⟨ty, resolves⟩
  rw [resolution, dif_pos stands]
  exact resolves.unique acyclic stands.choose_spec

section

variable {unfold : TypeId → Ty} (regular : table.Regular unfold)
  {owner : FeatureId} {actuals : List Ty} {id : FormalId}
  (fits : table.Fits owner actuals.length)

include regular fits

theorem Regular.resolves_resolution (resolvable : table.Resolvable owner id) :
    table.Resolves unfold owner actuals id (table.resolution unfold owner actuals id) := by
  obtain ⟨ty, resolves⟩ := regular.exists_resolves fits resolvable
  rwa [resolution_eq regular.acyclic resolves]

theorem Regular.resolution_own (belongs : id.feature = owner)
    (declaresFormal : table.DeclaresFormal id) :
    table.resolution unfold owner actuals id = ownReplacement owner actuals id := by
  obtain ⟨actual, present, replaced⟩ := exists_actual fits belongs declaresFormal
  rw [replaced]
  exact resolution_eq regular.acyclic (.own belongs present)

end

/-! ## Parents one after the other -/

noncomputable def seenThrough (table : FeatureTable) (unfold : TypeId → Ty) (parent : Parent) :
    (id : FormalId) → Ty :=
  table.resolution unfold parent.ancestor (parent.actuals.map unfold)

/-- The formal can be resolved from `owner`, and not through the parents in `done`. -/
def Pending (table : FeatureTable) (owner : FeatureId) (done : List Parent) (id : FormalId) :
    Prop :=
  table.Resolvable owner id ∧ ∀ parent ∈ done, ¬ table.Inherits parent.ancestor id.feature

theorem Regular.seenThrough_unrelated (regular : table.Regular unfold) {id : FormalId}
    (unrelated : ¬ table.Inherits parent.ancestor id.feature) :
    table.seenThrough unfold parent id = .formal id false :=
  resolution_eq regular.acyclic (.unrelated unrelated)

theorem Regular.replace_seenThrough_of_done (regular : table.Regular unfold)
    (member : parent ∈ done) (covered : ty.Over (table.Pending owner done) table.Declares) :
    ty.replace (table.seenThrough unfold parent) = ty := by
  refine (Ty.replace_congr covered fun id pending => ?_).trans ty.replace_self
  exact regular.seenThrough_unrelated (pending.2 parent member)

/-- The type as it is after each of the parents has resolved its formals. -/
noncomputable def through (table : FeatureTable) (unfold : TypeId → Ty) (parents : List Parent)
    (ty : Ty) : Ty :=
  parents.foldl (fun ty parent => ty.replace (table.seenThrough unfold parent)) ty

theorem Regular.through_of_done (regular : table.Regular unfold) {parents : List Parent}
    (members : ∀ parent ∈ parents, parent ∈ done)
    (covered : ty.Over (table.Pending owner done) table.Declares) :
    table.through unfold parents ty = ty := by
  induction parents with
  | nil => rfl
  | cons parent rest ih =>
    rw [List.forall_mem_cons] at members
    rw [through, List.foldl_cons, regular.replace_seenThrough_of_done members.1 covered]
    exact ih members.2

section

variable {unfold : TypeId → Ty} (regular : table.Regular unfold)
  {owner : FeatureId} {declared : Feature} (found : table.get owner = .ok declared)

include regular found

theorem Regular.resolves_seenThrough (member : parent ∈ declared.parents) {id : FormalId}
    (resolvable : table.Resolvable owner id) :
    table.Resolves unfold parent.ancestor (parent.actuals.map unfold) id
      (table.seenThrough unfold parent id) := by
  refine regular.resolves_resolution
    (by simpa using regular.actuals_fit owner declared found parent member) fun inherits => ?_
  exact resolvable ((inherits_iff found).mpr (.inr ⟨parent, member, inherits⟩))

theorem Regular.seenThrough_over (member : parent ∈ declared.parents) {id : FormalId}
    (resolvable : table.Resolvable owner id)
    (inherits : table.Inherits parent.ancestor id.feature) :
    (table.seenThrough unfold parent id).Over
      (fun formal => formal.feature = owner ∧ table.DeclaresFormal formal) table.Declares :=
  (regular.resolves_seenThrough found member resolvable).over_formals regular
    (by simpa using regular.actuals_fit owner declared found parent member) inherits
    (by simpa using regular.actuals_over owner declared found parent member)

theorem Regular.over_pending_replace (split : declared.parents = done ++ parent :: rest)
    (covered : ty.Over (table.Pending owner done) table.Declares) :
    (ty.replace (table.seenThrough unfold parent)).Over (table.Pending owner (done ++ [parent]))
      table.Declares := by
  have members : ∀ other ∈ done ++ [parent], other ∈ declared.parents := by
    intro other member
    rw [split, List.append_cons]
    exact List.mem_append_left rest member
  apply Ty.Over.replace
  apply covered.mono
  rintro id ⟨resolvable, notDone⟩
  by_cases inherits : table.Inherits parent.ancestor id.feature
  · apply (regular.seenThrough_over found (members parent (by simp)) resolvable inherits).mono
    rintro formal ⟨rfl, declaresFormal⟩
    exact ⟨fun _ => declaresFormal,
      fun other member => regular.acyclic.not_inherits found (members other member)⟩
  · rw [regular.seenThrough_unrelated inherits, Ty.over_formal_iff]
    refine ⟨resolvable, fun other member => ?_⟩
    rcases List.mem_append.mp member with earlier | last
    · exact notDone other earlier
    · rwa [List.mem_singleton.mp last]

theorem Regular.replace_seenThrough (split : declared.parents = done ++ parent :: rest)
    (fits : table.Fits owner actuals.length)
    (covered : ty.Over (table.Pending owner done) table.Declares) :
    (ty.replace (table.seenThrough unfold parent)).replace (table.resolution unfold owner actuals) =
      ty.replace (table.resolution unfold owner actuals) := by
  have member : parent ∈ declared.parents := by simp [split]
  rw [Ty.replace_replace]
  refine Ty.replace_congr covered ?_
  rintro id ⟨resolvable, notDone⟩
  by_cases inherits : table.Inherits parent.ancestor id.feature
  · have resolved : table.resolution unfold owner actuals id = _ :=
      resolution_eq regular.acyclic (.inherited found split notDone inherits
        (regular.resolves_seenThrough found member resolvable))
    rw [resolved]
    exact Ty.replace_congr (regular.seenThrough_over found member resolvable inherits)
      fun formal holds => regular.resolution_own fits holds.1 holds.2
  · rw [regular.seenThrough_unrelated inherits, Ty.replace_formal_false]

theorem Regular.over_through (split : declared.parents = done ++ rest)
    (covered : ty.Over (table.Pending owner done) table.Declares) :
    (table.through unfold rest ty).Over (table.Pending owner declared.parents) table.Declares := by
  induction rest generalizing done ty with
  | nil => rwa [split, List.append_nil]
  | cons parent rest ih =>
    exact ih (by simpa using split)
      (regular.over_pending_replace found split covered)

/-- To go through the parents first makes no difference to the replacement. -/
theorem Regular.replace_through (split : declared.parents = done ++ rest)
    (fits : table.Fits owner actuals.length)
    (covered : ty.Over (table.Pending owner done) table.Declares) :
    (table.through unfold rest ty).replace (table.resolution unfold owner actuals) =
      ty.replace (table.resolution unfold owner actuals) := by
  induction rest generalizing done ty with
  | nil => rfl
  | cons parent rest ih =>
    rw [← regular.replace_seenThrough found split fits covered]
    exact ih (by simpa using split)
      (regular.over_pending_replace found split covered)

theorem Regular.replace_own (fits : table.Fits owner actuals.length)
    (covered : ty.Over (table.Pending owner declared.parents) table.Declares) :
    ty.replace (table.resolution unfold owner actuals) =
      ty.replace (ownReplacement owner actuals) := by
  refine Ty.replace_congr covered ?_
  rintro id ⟨resolvable, notDone⟩
  by_cases inherits : table.Inherits owner id.feature
  · rcases (inherits_iff found).mp inherits with same | ⟨parent, member, through⟩
    · exact regular.resolution_own fits same.symm (resolvable inherits)
    · exact absurd through (notDone parent member)
  · have foreign : id.feature ≠ owner := by
      rintro rfl
      exact inherits .refl
    rw [resolution_eq regular.acyclic (.unrelated inherits), ownReplacement, if_neg foreign]

end

end FeatureTypes.FeatureTable

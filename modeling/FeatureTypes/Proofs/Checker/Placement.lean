import FeatureTypes.Proofs.Checker.Keeps
import FeatureTypes.Proofs.Feature.Built

/-!
# Where types of features are placed
-/

namespace FeatureTypes.Checker

/-- A well-formed checker with the given features. -/
structure WellFormedWith (table : FeatureTable) (checker : Checker) : Prop
    extends checker.WellFormed where
  features_eq : checker.features = table

instance enduring_wellFormedWith (table : FeatureTable) : Enduring (WellFormedWith table) where
  wellFormed presents := presents.toWellFormed
  grow presents canonical extension featuresEq _ _ _ := by
    refine ⟨⟨canonical, ?_⟩, featuresEq.trans presents.features_eq⟩
    rw [featuresEq]
    exact presents.features_wellFormed.of_extends extension

variable {table : FeatureTable} {checker : Checker}

/-- The number stands for a type that a feature has from inside. -/
def DenotesSelf (table : FeatureTable) (checker : Checker) (id : TypeId) : Prop :=
  ∃ ty, checker.types.Denotes id ty ∧ table.SelfTyped ty

theorem keeps_outerTypeBy {typeOf : FeatureId → CheckM TypeId}
    (rooted : ∀ root, table.get .universe = .ok root → root.outer = none)
    (each : ∀ checker, WellFormedWith table checker → ∀ id,
      Keeps (WellFormedWith table) checker (typeOf id) (DenotesSelf table))
    (presents : WellFormedWith table checker) (id : FeatureId) :
    Keeps (WellFormedWith table) checker (outerTypeBy typeOf id) fun after outer =>
      (∀ around ∈ outer, DenotesSelf table after around) ∧
        ∀ declared, table.get id = .ok declared → declared.inUniverse → outer = none := by
  refine .bind (.feature presents id) ?_
  rintro _ declared _ _ ⟨rfl, found⟩
  rw [presents.features_eq] at found
  cases outerEq : declared.outer with
  | none => exact .pure presents ⟨by simp, fun _ _ _ => rfl⟩
  | some outer =>
    refine .bind (.feature presents outer) ?_
    rintro _ around _ _ ⟨rfl, foundAround⟩
    rw [presents.features_eq] at foundAround
    cases isUniverse : around.isUniverse with
    | true => exact .pure presents ⟨by simp, fun _ _ _ => rfl⟩
    | false =>
      refine .bind (each checker presents outer) ?_
      intro after ty presents' _ selfTyped
      refine .pure presents' ⟨by simpa using selfTyped, ?_⟩
      -- The feature is inside another one than the universe, which is inside nothing.
      intro declared' found' inUniverse
      obtain rfl := Except.ok.inj (found.symm.trans found')
      rw [Feature.inUniverse, outerEq] at inUniverse
      rcases inUniverse with impossible | isRoot
      · cases impossible
      · obtain rfl := Option.some.inj isRoot
        rw [Feature.isUniverse, rooted around foundAround] at isUniverse
        cases isUniverse

theorem keeps_applied
    (presents : WellFormedWith table checker) {args : List TypeId}
    (argsHeld : ∀ arg ∈ args, checker.types.Holds arg) {outer : Option TypeId}
    (outerSelf : ∀ around ∈ outer, DenotesSelf table checker around) (id : FeatureId)
    (isRef : Bool) :
    Keeps (WellFormedWith table) checker (onTypes (·.applied id args outer isRef))
      fun after result =>
      ∃ outer', after.types.Denotes result
        (.applied id (args.map checker.types.tree) outer' isRef false) ∧
          ∀ around, outer' = some around → table.SelfTyped around := by
  have parts : checker.types.HoldsParts (.applied id args outer isRef false) := by
    intro child member
    rcases List.mem_append.mp member with inArgs | inOuter
    · exact argsHeld child inArgs
    · obtain ⟨_, denotes, _⟩ := outerSelf child (Option.mem_toList.mp inOuter)
      exact denotes.1
  refine (Keeps.makes presents
    (TypeStore.makes_intern presents.types_canonical parts)).weaken ?_
  intro after result _ _ denotes
  refine ⟨_, denotes, ?_⟩
  intro around present
  obtain ⟨aroundId, isOuter, rfl⟩ := Option.map_eq_some_iff.mp present
  obtain ⟨_, ⟨_, rfl⟩, selfTyped⟩ := outerSelf aroundId isOuter
  exact selfTyped

/-- The number stands for a declared formal. -/
def DenotesFormal (table : FeatureTable) (checker : Checker) (id : TypeId) : Prop :=
  checker.types.Holds id ∧
    ∃ formal, checker.types.node id = .formal formal false ∧ table.DeclaresFormal formal

theorem DenotesFormal.lasts (table : FeatureTable) : Keeps.Lasts (DenotesFormal table) := by
  rintro checker later id onward ⟨held, formal, node, declares⟩
  exact ⟨onward.types_extend.holds held, formal, (onward.types_extend.node_eq held).trans node,
    declares⟩

theorem exists_formals (coherent : checker.types.Coherent) {ids : List TypeId}
    (formals : ∀ id ∈ ids, DenotesFormal table checker id) :
    ∃ list : List FormalId, ids.map checker.types.tree = list.map (Ty.formal · false) ∧
      ∀ formal ∈ list, table.DeclaresFormal formal := by
  induction ids with
  | nil => exact ⟨[], rfl, by simp⟩
  | cons id rest ih =>
    rw [List.forall_mem_cons] at formals
    obtain ⟨⟨held, formal, node, declares⟩, others⟩ := formals
    obtain ⟨list, restEq, listDeclared⟩ := ih others
    refine ⟨formal :: list, ?_, List.forall_mem_cons.mpr ⟨declares, listDeclared⟩⟩
    rw [List.map_cons, List.map_cons, restEq, TypeStore.tree_eq coherent held, node, Node.toTy]

variable (rooted : ∀ root, table.get .universe = .ok root → root.outer = none)
  (presents : WellFormedWith table checker)

include presents

theorem keeps_ownFormals {id : FeatureId} {declared : Feature}
    (found : table.get id = .ok declared) :
    Keeps (WellFormedWith table) checker
      (declared.formals.mapM fun formal => onTypes (·.formal formal.id)) fun after args =>
        ∀ arg ∈ args, DenotesFormal table after arg := by
  refine .mapM (DenotesFormal.lasts table) presents ?_
  intro after formal member presents' _
  obtain ⟨position, present⟩ := List.mem_iff_getElem?.mp member
  have declares : table.DeclaresFormal formal.id := by
    rw [(presents.features_wellFormed id declared (presents.features_eq ▸ found)).formal_id
      position formal present]
    exact ⟨declared, found, (List.getElem?_eq_some_iff.mp present).choose⟩
  have parts : after.types.HoldsParts (.formal formal.id false) := by
    simp [TypeStore.HoldsParts, Node.children]
  refine (Keeps.makes presents'
    (TypeStore.makes_intern presents'.types_canonical parts)).weaken ?_
  intro after' arg presents'' _ denotes
  exact ⟨denotes.1, formal.id, denotes.node_formal presents''.types_canonical.toCoherent,
    declares⟩

include rooted

theorem keeps_selfTypeWithin (depth : Nat) (id : FeatureId) :
    Keeps (WellFormedWith table) checker (selfTypeWithin depth id) (DenotesSelf table) := by
  induction depth generalizing checker id with
  | zero => exact .fail .depthExceeded _
  | succ depth ih =>
    refine .bind (.feature presents id) ?_
    rintro _ declared _ _ ⟨rfl, found⟩
    rw [presents.features_eq] at found
    refine .bind (keeps_ownFormals presents found) ?_
    intro after₁ args presents₁ _ formals
    refine .bind (keeps_outerTypeBy rooted (fun _ holds id => ih holds id) presents₁ id) ?_
    rintro after₂ outer presents₂ onward ⟨outerSelf, _⟩
    replace formals : ∀ arg ∈ args, DenotesFormal table after₂ arg :=
      fun arg member => DenotesFormal.lasts table onward (formals arg member)
    obtain ⟨list, argsEq, declares⟩ :=
      exists_formals presents₂.types_canonical.toCoherent formals
    refine (keeps_applied presents₂ (fun arg member => (formals arg member).1) outerSelf id
      declared.isRef).weaken ?_
    rintro after₃ ty _ _ ⟨outer', denotes, inside⟩
    rw [argsEq] at denotes
    exact ⟨_, denotes, .intro declares inside⟩

/-- An applied feature is placed in the type of the feature around it. -/
theorem keeps_instantiate (id : FeatureId) {args : List TypeId}
    (argsHeld : ∀ arg ∈ args, checker.types.Holds arg) :
    Keeps (WellFormedWith table) checker (instantiate id args) fun after ty =>
      table.Placed (after.types.tree ty) ∧ table.Spells after.types id args ty := by
  refine .bind (.feature presents id) ?_
  rintro _ declared _ _ ⟨rfl, found⟩
  rw [presents.features_eq] at found
  refine .bind (keeps_outerTypeBy rooted
    (fun _ holds outer => keeps_selfTypeWithin rooted holds _ outer) presents id) ?_
  rintro after outer presents' onward ⟨outerSelf, outermost⟩ ty after' run
  obtain ⟨presents'', onward', outer', denotes, inside⟩ := keeps_applied presents'
    (fun arg member => onward.types_extend.holds (argsHeld arg member)) outerSelf id declared.isRef
    ty after' run
  rw [run_onTypes] at run
  obtain ⟨rfl, rfl⟩ := EStateM.Result.ok.inj run
  refine ⟨presents'', onward', ?_, denotes.1, declared, outer, found,
    (TypeStore.intern_holds presents'.types_canonical.toCoherent _).2, outermost declared found⟩
  rintro feature args around isRef isThis treeEq
  rw [denotes.2] at treeEq
  exact inside around (Ty.applied.inj treeEq).2.2.1

end FeatureTypes.Checker

import FeatureTypes.Proofs.Checker.Metatype
import FeatureTypes.Proofs.Substitution.Filled
import FeatureTypes.Proofs.Ty.Levels

/-!
# Metatypes and substitution

The arguments of a metatype behind the first are seen from inside the first while the
formals of the owner are still there.  Where its feature inherits from the owner, they may
be taken for its own.
-/

namespace FeatureTypes

variable {owner : FeatureId} {ty self : Ty}

variable {features : FeatureId → Prop} {outer : Option Ty} {args : List Ty} {feature : FeatureId}

/-! ## Closed types -/

namespace Ty

theorem mentionsThis_applied_iff {isRef isThis : Bool} :
    (Ty.applied feature args outer isRef isThis).mentionsThis = false ↔
      isThis = false ∧ (∀ arg ∈ args, arg.mentionsThis = false) ∧
        ∀ around, outer = some around → around.mentionsThis = false := by
  rw [mentionsThis_eq_false_iff]
  simp only [children, List.mem_append, Option.mem_toList, or_imp, forall_and]
  rfl

/-- The type has no formals, no error types and no types of enclosing instances in it. -/
structure Closed (ty : Ty) : Prop where
  covered : ty.Over (fun _ => False) fun _ => True
  idle : ty.mentionsThis = false

instance : DecidablePred Closed := fun _ =>
  decidable_of_iff (_ ∧ _) ⟨fun ⟨covered, idle⟩ => ⟨covered, idle⟩, fun ⟨covered, idle⟩ =>
    ⟨covered, idle⟩⟩

theorem closed_applied_iff {isRef isThis : Bool} :
    (Ty.applied feature args outer isRef isThis).Closed ↔
      isThis = false ∧ (∀ arg ∈ args, arg.Closed) ∧
        ∀ around, outer = some around → around.Closed := by
  constructor
  · rintro ⟨covered, idle⟩
    obtain ⟨_, argsOver, outerOver⟩ := over_applied_iff.mp covered
    obtain ⟨notThis, argsIdle, outerIdle⟩ := mentionsThis_applied_iff.mp idle
    exact ⟨notThis, fun arg member => ⟨argsOver arg member, argsIdle arg member⟩,
      fun around present => ⟨outerOver around present, outerIdle around present⟩⟩
  · rintro ⟨notThis, argsClosed, outerClosed⟩
    exact ⟨over_applied_iff.mpr ⟨trivial, fun arg member => (argsClosed arg member).covered,
        fun around present => (outerClosed around present).covered⟩,
      mentionsThis_applied_iff.mpr ⟨notThis, fun arg member => (argsClosed arg member).idle,
        fun around present => (outerClosed around present).idle⟩⟩

namespace Closed

variable {ty : Ty} (closed : ty.Closed)

include closed

theorem asRef : ty.asRef.Closed := by
  cases ty with
  | formal id boxed => exact (over_formal_iff.mp closed.covered).elim
  | applied feature args outer isRef isThis =>
    exact closed_applied_iff.mpr (closed_applied_iff.mp closed)
  | _ => exact closed

theorem mentionsFormal_eq : ty.mentionsFormal = false := by
  rw [mentionsFormal, List.any_eq_false]
  intro part occurs
  have root := closed.covered part occurs
  cases part with
  | formal id boxed => exact root.elim
  | _ => exact Bool.false_ne_true

end Closed

end Ty

namespace Filling

/-- The formal has an actual of its own. -/
def Settles (filling : Filling) (id : FormalId) : Prop :=
  id.feature = filling.owner ∧ filling.isOpen id.index = false ∧
    id.index < filling.actuals.length

variable {filling : Filling} (closing : ∀ actual ∈ filling.actuals, actual.Closed)

theorem fillList_of_settles {list : List Ty}
    (settled : ∀ ty ∈ list, ty.Over filling.Settles features) :
    filling.fillList list = list.map filling.fill := by
  apply filling.fillList_eq_map
  intro ty member
  cases ty with
  | formal id boxed =>
    refine if_neg fun ⟨_, isOpen⟩ => ?_
    rw [(Ty.over_formal_iff.mp (settled _ member)).2.1] at isOpen
    cases isOpen
  | _ => rfl

include closing

/-- If every formal has an actual of its own that is closed, so is the result. -/
theorem fill_closed (settled : ty.Over filling.Settles features) (idle : ty.mentionsThis = false) :
    (filling.fill ty).Closed := by
  induction ty with
  | formal id boxed =>
    obtain ⟨belongs, notOpen, bound⟩ := Ty.over_formal_iff.mp settled
    have closed : (filling.single id.index).Closed := by
      rw [single, notOpen, if_neg Bool.false_ne_true, List.getD_eq_getElem?_getD,
        List.getElem?_eq_getElem bound, Option.getD_some]
      exact closing _ (List.getElem_mem bound)
    rw [fill_own _ belongs]
    split
    · exact closed.asRef
    · exact closed
  | applied feature args outer isRef isThis argsClosed outerClosed =>
    obtain ⟨_, argsSettled, outerSettled⟩ := Ty.over_applied_iff.mp settled
    obtain ⟨notThis, argsIdle, outerIdle⟩ := Ty.mentionsThis_applied_iff.mp idle
    have argsFilled : ∀ arg ∈ args.map filling.fill, arg.Closed := by
      rw [List.forall_mem_map]
      exact fun arg member => argsClosed arg member (argsSettled arg member) (argsIdle arg member)
    have outerFilled : ∀ around, outer.map filling.fill = some around → around.Closed := by
      intro result isResult
      obtain ⟨around, present, rfl⟩ := Option.map_eq_some_iff.mp isResult
      exact outerClosed around present (outerSettled around present) (outerIdle around present)
    rw [fill_applied, fillList_of_settles argsSettled, Ty.assemble, if_neg]
    · exact Ty.closed_applied_iff.mpr ⟨notThis, argsFilled, outerFilled⟩
    · rintro (isError | member)
      · exact (outerFilled _ isError).covered.ne_error rfl
      · exact (argsFilled _ member).covered.ne_error rfl
  | error => exact absurd rfl settled.ne_error
  | _ => exact ⟨by rw [fill]; decide, rfl⟩

theorem fill_applied_of_settles {isRef isThis : Bool}
    (settled : (Ty.applied feature args outer isRef isThis).Over filling.Settles features)
    (idle : (Ty.applied feature args outer isRef isThis).mentionsThis = false) :
    filling.fill (.applied feature args outer isRef isThis) =
      .applied feature (args.map filling.fill) (outer.map filling.fill) isRef isThis := by
  have typed := (fill_closed closing settled idle).covered.ne_error
  obtain ⟨_, argsSettled, _⟩ := Ty.over_applied_iff.mp settled
  rw [fill_applied, fillList_of_settles argsSettled, Ty.assemble] at typed ⊢
  rw [if_neg]
  intro failed
  rw [if_pos failed] at typed
  exact typed rfl

end Filling

namespace FeatureTable

/-- The formals of the feature give way to `actuals`. -/
def filling (table : FeatureTable) (owner : FeatureId) (actuals : List Ty) : Filling where
  owner
  isOpen position := (table.formalsOf owner)[position]?.any Formal.isOpen
  actuals

theorem filling_eq {table : FeatureTable} {declared : Feature}
    (found : table.get owner = .ok declared) (actuals : List Ty) :
    table.filling owner actuals = .ofFeature owner declared actuals := by
  rw [filling, formalsOf_eq found]
  rfl

/-- From inside the feature, which takes the arguments, the type with formals of `owner` is seen
as the result.  An heir of `owner` sees what the first of its parents that is one too sees, with
its own arguments filled in. -/
inductive Sees (table : FeatureTable) (unfold : TypeId → Ty) (owner : FeatureId) (ty : Ty) :
    (feature : FeatureId) → (args : List Ty) → (result : Ty) → Prop
  | stranger {feature : FeatureId} (args : List Ty) (unrelated : ¬ table.Inherits feature owner) :
      Sees table unfold owner ty feature args ty
  | owner (args : List Ty) :
      Sees table unfold owner ty owner args ((table.filling owner args).fill ty)
  | heir {feature : FeatureId} {declared : Feature} {earlier later : List Parent}
      {parent : Parent} {seen : Ty} (args : List Ty) (found : table.get feature = .ok declared)
      (parents_eq : declared.parents = earlier ++ parent :: later)
      (unrelated : ∀ other ∈ earlier, ¬ table.Inherits other.ancestor owner)
      (sees : Sees table unfold owner ty parent.ancestor (parent.actuals.map unfold) seen)
      (covered : seen.Over (table.Owns feature) table.DeclaresPlain) :
      Sees table unfold owner ty feature args ((table.filling feature args).fill seen)

theorem Sees.of_fill_eq {table : FeatureTable} {unfold : TypeId → Ty} {result : Ty}
    (filled : (table.filling owner args).fill ty = result) :
    table.Sees unfold owner ty owner args result :=
  filled ▸ .owner args

/-- From inside the feature, which takes the arguments, no formal of `owner` in the type is taken
for another: `owner` has no parents, so that nobody looks while its formals are there, or there
are none in the type, or the type is seen as it is. -/
def Uncaptured (table : FeatureTable) (unfold : TypeId → Ty) (owner : FeatureId) (ty : Ty)
    (feature : FeatureId) (args : List Ty) : Prop :=
  feature = .universe ∨ (table.Accepts feature args.length ∧
    ((∀ ancestor, ¬ table.HasParent owner ancestor) ∨ ty.mentionsFormal = false ∨
      (table.Grounded feature ∧ table.Sees unfold owner ty feature args ty)))

end FeatureTable

namespace Checker

variable {start : Checker}

/-! ## Settled arguments -/

/-- Seen from inside the feature, applied to these arguments, the type stays as it is. -/
def Harmless (start : Checker) (ty : Ty) (feature : FeatureId) (args : List Ty) : Prop :=
  ∃ declared, start.features.get feature = .ok declared ∧
    (declared.isUniverse = false → start.smooth (fun _ => True) feature args ty = some ty)

theorem seenFrom_of_harmless (chain : self.Chain (start.Harmless ty))
    (idle : ty.mentionsThis = false) :
    start.signature.seenFrom (start.smooth fun _ => True) self ty = some ty := by
  induction chain with
  | @applied feature args outer isRef isThis harmless _ seen =>
    obtain ⟨declared, found, keeps⟩ := harmless
    rw [Signature.seenFrom, Signature.replaceThis_of_idle _ idle]
    simp only [Option.bind_eq_bind, Option.bind_some, Feature.outline,
      start.follows_signature.feature_eq feature declared found]
    cases isUniverse : declared.isUniverse with
    | true => exact if_pos isUniverse
    | false =>
      refine (if_neg (Bool.eq_false_iff.mp isUniverse)).trans ?_
      cases outer with
      | none => exact keeps isUniverse
      | some around =>
        simp only [seen around rfl, Option.bind_some]
        exact keeps isUniverse

theorem argsUnder_of_harmless {companion : FeatureId} {mirror : Feature}
    (found : start.features.get companion = .ok mirror) {slots : List Ty}
    (harmless : ∀ slot ∈ slots, self.Chain (start.Harmless slot) ∧ slot.mentionsThis = false) :
    start.signature.argsUnder (start.demands fun _ => True) (start.smooth fun _ => True) companion
      (self :: slots) = some (self :: slots) := by
  have slotsKept : slots.mapM (fun slot => if slot = self then some slot else
      start.signature.seenFrom (start.smooth fun _ => True) self slot) = some slots := by
    apply mapM_of_unchanged
    intro slot member
    obtain ⟨chain, idle⟩ := harmless slot member
    rw [seenFrom_of_harmless chain idle, ite_self]
  rw [Signature.argsUnder, if_pos (.inl fun _ _ => trivial), Signature.settleArgs,
    start.follows_signature.feature_eq companion mirror found]
  simp only [Option.bind_eq_bind, Option.bind_some, Option.pure_def, slotsKept, ite_self]

theorem smooth_metatype_step {declared : Feature} (found : start.features.get owner = .ok declared)
    {actuals : List Ty} (accepts : declared.accepts actuals.length = true) {companion : FeatureId}
    {mirror : Feature} (foundMirror : start.features.get companion = .ok mirror) {newSelf : Ty}
    {newArgs : List Ty} {newOuter : Option Ty}
    (mentions : (Ty.applied companion (self :: args) outer false false).mentionsFormal = true)
    (whole : (Ty.applied companion (self :: args) outer false false).Whole)
    (keeps : ∀ parent ∈ declared.parents, start.smooth (fun _ => True) parent.ancestor
      (parent.actuals.map start.types.tree) (.applied companion (self :: args) outer false false) =
        some (.applied companion (self :: args) outer false false))
    (argsFilled : start.signature.substituteList (start.smooth fun _ => True) owner actuals
      (self :: args) = some (newSelf :: newArgs))
    (outerFilled : outer.mapM (start.smooth (fun _ => True) owner actuals) = some newOuter)
    (harmless : ∀ slot ∈ newArgs, newSelf.Chain (start.Harmless slot) ∧ slot.mentionsThis = false)
    (newWhole : (Ty.applied companion (newSelf :: newArgs) newOuter false false).Whole) :
    start.smooth (fun _ => True) owner actuals
      (.applied companion (self :: args) outer false false) =
        some (.applied companion (newSelf :: newArgs) newOuter false false) := by
  rw [smooth_applied found accepts mentions keeps argsFilled outerFilled
      (argsUnder_of_harmless foundMirror harmless), Signature.rebuild_eq_assemble whole,
    Ty.assemble_of_whole newWhole]
  exact Demands.replace_of_admits trivial _

/-! ## What looks the same -/

theorem foldlM_parents {declared : Feature} {earlier later : List Parent} {parent : Parent}
    {seen : Ty} (parentsEq : declared.parents = earlier ++ parent :: later)
    (keptEarlier : ∀ other ∈ earlier, start.smooth (fun _ => True) other.ancestor
      (other.actuals.map start.types.tree) ty = some ty)
    (sees : start.smooth (fun _ => True) parent.ancestor (parent.actuals.map start.types.tree) ty =
      some seen)
    (kept : ∀ other ∈ declared.parents, start.smooth (fun _ => True) other.ancestor
      (other.actuals.map start.types.tree) seen = some seen) :
    declared.parents.foldlM (fun ty parent => start.smooth (fun _ => True) parent.ancestor
      (parent.actuals.map start.types.tree) ty) ty = some seen := by
  rw [parentsEq, List.forall_mem_append, List.forall_mem_cons] at kept
  rw [parentsEq, List.foldlM_append, foldlM_eq_some_self keptEarlier]
  simp only [Option.bind_eq_bind, Option.bind_some, List.foldlM_cons, sees]
  exact foldlM_eq_some_self kept.2.2

section

variable (wellFormed : start.WellFormed) (lawful : start.features.Lawful)

include lawful

theorem harmless_universe : start.Harmless ty .universe args := by
  obtain ⟨declared, found⟩ := lawful.universe_declared
  refine ⟨declared, found, fun isElsewhere => ?_⟩
  rw [Feature.isUniverse, (lawful.outer_eq_none_iff _ declared found).mpr rfl] at isElsewhere
  cases isElsewhere

theorem harmless_of_closed {slot : Ty}
    (chain : self.Chain fun feature args =>
      feature = .universe ∨ start.features.Accepts feature args.length)
    (closed : slot.Closed) : self.Chain (start.Harmless slot) := by
  refine chain.mono fun feature args holds => ?_
  rcases holds with rfl | accepts
  · exact harmless_universe lawful
  · have ⟨declared, found, _⟩ := accepts
    exact ⟨declared, found, fun _ => smooth_of_closed accepts closed.mentionsFormal_eq⟩

include wellFormed

/-- What is seen from inside a feature is what substitution gives. -/
theorem smooth_of_sees {result : Ty}
    (covered : ty.Over (start.features.Owns owner) start.features.DeclaresPlain)
    (sees : start.features.Sees start.types.tree owner ty feature args result)
    (grounded : start.features.Grounded feature)
    (accepts : start.features.Accepts feature args.length) :
    start.smooth (fun _ => True) feature args ty = some result := by
  have foreign : ∀ {other : FeatureId} {actuals : List Ty},
      ¬ start.features.Inherits other owner → start.features.Grounded other →
        start.features.Accepts other actuals.length →
          start.smooth (fun _ => True) other actuals ty = some ty := fun unrelated grounded =>
    smooth_of_spared wellFormed grounded
      (covered.mono fun id owned => FeatureTable.Owns.spares owned unrelated).among
  induction sees with
  | stranger args unrelated => exact foreign unrelated grounded accepts
  | owner args =>
    obtain ⟨declared, found, fits⟩ := accepts
    rw [FeatureTable.filling_eq found]
    exact smooth_fill_of_owns wellFormed grounded found lawful fits covered
  | @heir feature declared earlier later parent seen args found parentsEq unrelated _ seenOver ih =>
    have above : ∀ other ∈ declared.parents, start.features.Grounded other.ancestor ∧
        start.features.Accepts other.ancestor (other.actuals.map start.types.tree).length :=
      fun other member => ⟨grounded.of_inherits (.single ⟨declared, found, other, member, rfl⟩), by
        rw [List.length_map]
        exact grounded.accepted feature declared .refl found other member⟩
    rw [parentsEq, List.forall_mem_append, List.forall_mem_cons] at above
    obtain ⟨aboveEarlier, ⟨parentGrounded, parentAccepts⟩, _⟩ := above
    have parentSees := ih parentGrounded parentAccepts
    obtain ⟨declared', found', fits⟩ := accepts
    obtain rfl := Except.ok.inj (found.symm.trans found')
    have fillable := seenOver.mono fun _ => FeatureTable.Owns.fillable
    rw [FeatureTable.filling_eq found]
    cases mentions : ty.mentionsFormal with
    | false =>
      obtain rfl :=
        Option.some.inj ((smooth_of_closed parentAccepts mentions).symm.trans parentSees)
      rw [Filling.fill_of_closed _ seenOver mentions]
      exact smooth_of_closed ⟨declared, found, fits⟩ mentions
    | true =>
      -- The later parents meet formals of the feature only, which are none of theirs.
      have fromParents := foldlM_parents parentsEq
        (fun other member => foreign (unrelated other member) (aboveEarlier other member).1
          (aboveEarlier other member).2)
        parentSees (parents_keep_of_fillable wellFormed grounded found fillable.among)
      rw [smooth_of_open found fits mentions fromParents]
      exact ownUnder_eq_fill found (fun _ => trivial) (lawful.numbered feature declared found) fits
        fillable fun child member => smooth_fill_of_owns wellFormed grounded found lawful fits
          (seenOver.child member)

/-- Arguments that are not captured stay as they are on the way. -/
theorem harmless_of_uncaptured {ancestor : FeatureId}
    (hasParent : start.features.HasParent owner ancestor) {slot : Ty}
    (chain : self.Chain (start.features.Uncaptured start.types.tree owner slot))
    (covered : slot.Over (start.features.Owns owner) start.features.DeclaresPlain) :
    self.Chain (start.Harmless slot) := by
  refine chain.mono fun feature args uncaptured => ?_
  rcases uncaptured with rfl | ⟨accepts, parentless | closed | ⟨grounded, sees⟩⟩
  · exact harmless_universe lawful
  · exact absurd hasParent (parentless ancestor)
  · have ⟨declared, found, _⟩ := accepts
    exact ⟨declared, found, fun _ => smooth_of_closed accepts closed⟩
  · have ⟨declared, found, _⟩ := accepts
    exact ⟨declared, found, fun _ =>
      smooth_of_sees wellFormed lawful covered sees grounded accepts⟩

/-! ## Passes through ancestors -/

theorem smooth_metatype_of_ancestor {parent : FeatureId}
    (hasParent : start.features.HasParent owner parent) {ancestor : FeatureId}
    (grounded : start.features.Grounded ancestor)
    (unrelated : ¬ start.features.Inherits ancestor owner)
    (nests : ty.Nests (start.features.Uncaptured start.types.tree owner))
    (covered : ty.Over (start.features.Owns owner) start.features.DeclaresPlain)
    (idle : ty.mentionsThis = false) {actuals : List Ty}
    (accepts : start.features.Accepts ancestor actuals.length) :
    start.smooth (fun _ => True) ancestor actuals (start.features.metatype ty) =
      some (start.features.metatype ty) := by
  -- From the ancestors down, and for each of them from the outermost type in.
  refine grounded.induction (motive := fun ancestor => ¬ start.features.Inherits ancestor owner →
    ∀ {ty : Ty}, ty.Nests (start.features.Uncaptured start.types.tree owner) →
      ty.Over (start.features.Owns owner) start.features.DeclaresPlain → ty.mentionsThis = false →
        ∀ {actuals : List Ty}, start.features.Accepts ancestor actuals.length →
          start.smooth (fun _ => True) ancestor actuals (start.features.metatype ty) =
            some (start.features.metatype ty)) ?_ unrelated nests covered idle accepts
  intro ancestor grounded fromParents unrelated ty nests covered idle actuals accepts
  have spared : ∀ {part : Ty}, part.Over (start.features.Owns owner)
      start.features.DeclaresPlain → part.Over (start.features.Spares ancestor)
        start.features.DeclaresPlain := fun covered =>
    covered.mono fun id owned => FeatureTable.Owns.spares owned unrelated
  induction nests with
  | @applied feature args outer isRef isThis slots around fromOuter =>
    cases isCompanion : start.features.companionOf feature with
    | none =>
      rw [FeatureTable.metatype_of_missing isCompanion]
      exact smooth_of_spared wellFormed grounded (spared covered).among accepts
    | some companion =>
      have ⟨declared, found, fits⟩ := accepts
      obtain ⟨_, argsCovered, outerCovered⟩ := Ty.over_applied_iff.mp covered
      obtain ⟨_, argsIdle, outerIdle⟩ := Ty.mentionsThis_applied_iff.mp idle
      obtain ⟨mirror, foundMirror, _⟩ := FeatureTable.exists_of_originOf
        ((lawful.companion_iff feature companion).mp isCompanion)
      have whole := start.features.whole_metatype covered.whole
      have keeps : ∀ parent ∈ declared.parents, start.smooth (fun _ => True) parent.ancestor
          (parent.actuals.map start.types.tree)
          (start.features.metatype (.applied feature args outer isRef isThis)) =
            some (start.features.metatype (.applied feature args outer isRef isThis)) := by
        intro parent member
        have hasParent : start.features.HasParent ancestor parent.ancestor :=
          ⟨declared, found, parent, member, rfl⟩
        refine fromParents parent.ancestor hasParent
          (fun inherits => unrelated (.head hasParent inherits)) (.applied slots around)
          covered idle ?_
        rw [List.length_map]
        exact grounded.accepted ancestor declared .refl found parent member
      have partsSpared : ∀ part ∈ .applied feature args outer isRef isThis :: args,
          part.Over (start.features.Spares ancestor) start.features.DeclaresPlain :=
        List.forall_mem_cons.mpr ⟨spared covered, fun arg member => spared (argsCovered arg member)⟩
      cases mentions :
          (start.features.metatype (.applied feature args outer isRef isThis)).mentionsFormal with
      | false => exact smooth_of_closed accepts mentions
      | true =>
        rw [FeatureTable.metatype_of_companion isCompanion] at mentions keeps whole ⊢
        refine smooth_metatype_step found fits foundMirror mentions whole keeps ?_ ?_ ?_ whole
        · exact substituteList_of_foreign found fits
            (wellFormed.features_wellFormed ancestor declared found)
            (fun part member => (partsSpared part member).among.not_belongsTo
              fun _ => FeatureTable.Spares.foreign)
            fun part member =>
              smooth_of_spared wellFormed grounded (partsSpared part member).among accepts
        · cases outer with
          | none => rfl
          | some ty =>
            rw [Option.map_some, Option.mapM_some,
              fromOuter ty rfl (outerCovered ty rfl) (outerIdle ty rfl)]
            rfl
        · exact fun slot member => ⟨harmless_of_uncaptured wellFormed lawful hasParent
            (slots slot member) (argsCovered slot member), argsIdle slot member⟩

end

/-! ## The pass through the owner -/

section

variable {owner : FeatureId} {declared : Feature}
  (found : start.features.get owner = .ok declared) {actuals : List Ty}
  (accepts : declared.accepts actuals.length = true)
  (notOpen : ∀ formal ∈ declared.formals, formal.isOpen = false)

include found accepts notOpen

theorem settles_of_owns {id : FormalId} (owned : start.features.Owns owner id) :
    (Filling.ofFeature owner declared actuals).Settles id := by
  have bound := FeatureTable.Owns.index_lt owned found
  refine ⟨owned.1, ?_, ?_⟩
  · have present := List.getElem?_eq_getElem bound
    simp only [Filling.ofFeature, present, Option.any_some]
    exact notOpen _ (List.getElem_mem bound)
  · exact Nat.lt_of_lt_of_eq bound (Feature.eq_length_of_accepts accepts
      (Feature.endsOpen_eq_false notOpen)).symm

variable (closing : ∀ actual ∈ actuals, actual.Closed)

include closing

theorem chain_fill {slot : Ty}
    (chain : ty.Chain (start.features.Uncaptured start.types.tree owner slot))
    (covered : ty.Over (start.features.Owns owner) start.features.DeclaresPlain)
    (idle : ty.mentionsThis = false) :
    ((Filling.ofFeature owner declared actuals).fill ty).Chain fun feature args =>
      feature = .universe ∨ start.features.Accepts feature args.length := by
  induction chain with
  | applied uncaptured _ fromOuter =>
    have settled := covered.mono fun id => settles_of_owns found accepts notOpen
    obtain ⟨_, _, outerCovered⟩ := Ty.over_applied_iff.mp covered
    obtain ⟨_, _, outerIdle⟩ := Ty.mentionsThis_applied_iff.mp idle
    rw [Filling.fill_applied_of_settles closing settled idle]
    refine .applied ?_ ?_
    · rw [List.length_map]
      exact uncaptured.imp_right And.left
    · intro result isResult
      obtain ⟨around, present, rfl⟩ := Option.map_eq_some_iff.mp isResult
      exact fromOuter around present (outerCovered around present) (outerIdle around present)

/-- Without capture, the metatype may be taken before or after the substitution. -/
theorem smooth_metatype (wellFormed : start.WellFormed) (lawful : start.features.Lawful)
    (grounded : start.features.Grounded owner)
    (nests : ty.Nests (start.features.Uncaptured start.types.tree owner))
    (covered : ty.Over (start.features.Owns owner) start.features.DeclaresPlain)
    (idle : ty.mentionsThis = false) :
    start.smooth (fun _ => True) owner actuals (start.features.metatype ty) =
      some (start.features.metatype ((Filling.ofFeature owner declared actuals).fill ty)) := by
  have partFilled : ∀ {part : Ty}, part.Over (start.features.Owns owner)
      start.features.DeclaresPlain → start.smooth (fun _ => True) owner actuals part =
        some ((Filling.ofFeature owner declared actuals).fill part) :=
    smooth_fill_of_owns wellFormed grounded found lawful accepts
  have settled : ∀ {part : Ty}, part.Over (start.features.Owns owner)
      start.features.DeclaresPlain → part.Over (Filling.ofFeature owner declared actuals).Settles
        start.features.DeclaresPlain :=
    fun covered => covered.mono fun id => settles_of_owns found accepts notOpen
  induction nests with
  | @applied feature args outer isRef isThis slots around fromOuter =>
    have filled := Filling.fill_applied_of_settles closing (settled covered) idle
    cases isCompanion : start.features.companionOf feature with
    | none =>
      rw [FeatureTable.metatype_of_missing isCompanion, filled,
        FeatureTable.metatype_of_missing isCompanion, ← filled]
      exact partFilled covered
    | some companion =>
      obtain ⟨_, argsCovered, outerCovered⟩ := Ty.over_applied_iff.mp covered
      obtain ⟨_, argsIdle, outerIdle⟩ := Ty.mentionsThis_applied_iff.mp idle
      obtain ⟨mirror, foundMirror, _⟩ := FeatureTable.exists_of_originOf
        ((lawful.companion_iff feature companion).mp isCompanion)
      have keeps : ∀ parent ∈ declared.parents, start.smooth (fun _ => True) parent.ancestor
          (parent.actuals.map start.types.tree)
          (start.features.metatype (.applied feature args outer isRef isThis)) =
            some (start.features.metatype (.applied feature args outer isRef isThis)) := by
        intro parent member
        have hasParent : start.features.HasParent owner parent.ancestor :=
          ⟨declared, found, parent, member, rfl⟩
        refine smooth_metatype_of_ancestor wellFormed lawful hasParent
          (grounded.of_inherits (.single hasParent)) (grounded.not_inherits found member)
          (.applied slots around) covered idle ?_
        rw [List.length_map]
        exact grounded.accepted owner declared .refl found parent member
      have partsCovered : ∀ part ∈ .applied feature args outer isRef isThis :: args,
          part.Over (start.features.Owns owner) start.features.DeclaresPlain :=
        List.forall_mem_cons.mpr ⟨covered, argsCovered⟩
      have whole := start.features.whole_metatype covered.whole
      have newWhole := start.features.whole_metatype
        (Filling.fill_closed closing (settled covered) idle).covered.whole
      cases mentions :
          (start.features.metatype (.applied feature args outer isRef isThis)).mentionsFormal with
      | false =>
        rw [Filling.fill_of_closed _ covered (FeatureTable.mentionsFormal_of_metatype mentions)]
        exact smooth_of_closed ⟨declared, found, accepts⟩ mentions
      | true =>
        rw [FeatureTable.metatype_of_companion isCompanion] at mentions keeps whole ⊢
        rw [filled, FeatureTable.metatype_of_companion isCompanion, ← filled] at newWhole ⊢
        refine smooth_metatype_step found accepts foundMirror mentions whole keeps ?_ ?_ ?_ newWhole
        · rw [substituteList_eq_fillList found accepts (lawful.numbered owner declared found)
              fun part member => partFilled (partsCovered part member),
            Filling.fillList_of_settles fun part member => settled (partsCovered part member)]
          rfl
        · cases outer with
          | none => rfl
          | some ty =>
            rw [Option.map_some, Option.mapM_some,
              fromOuter ty rfl (outerCovered ty rfl) (outerIdle ty rfl)]
            rfl
        · rw [List.forall_mem_map]
          intro slot member
          have closed := Filling.fill_closed closing (settled (argsCovered slot member))
            (argsIdle slot member)
          exact ⟨harmless_of_closed lawful (chain_fill found accepts notOpen closing
            (slots slot member) covered idle) closed, closed.idle⟩

end

end Checker

end FeatureTypes

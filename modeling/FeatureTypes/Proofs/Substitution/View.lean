import FeatureTypes.Proofs.Checker.Upkeep
import FeatureTypes.Proofs.Substitution.Composition

/-!
# Types as seen from other types

Seen from an applied feature, a type has the formals of that feature and of its ancestors
replaced by the arguments, and then the formals that are settled by the outer types.
-/

namespace FeatureTypes

namespace FeatureTable

/-- A type whose formals and features are declared. -/
def DeclaresAll (table : FeatureTable) (ty : Ty) : Prop :=
  ty.Over table.DeclaresFormal table.Declares

instance (table : FeatureTable) : DecidablePred table.DeclaresAll :=
  fun ty => inferInstanceAs (Decidable (ty.Over table.DeclaresFormal table.Declares))

/-- A feature with fitting arguments, in outer types of the same kind, all made of what is
declared. -/
inductive Enclosing (table : FeatureTable) : Ty → Prop
  | outermost {feature : FeatureId} {args : List Ty} {isRef isThis : Bool}
      (fits : table.Fits feature args.length) (declares : ∀ arg ∈ args, table.DeclaresAll arg) :
      Enclosing table (.applied feature args none isRef isThis)
  | inside {feature : FeatureId} {args : List Ty} {around : Ty} {isRef isThis : Bool}
      (fits : table.Fits feature args.length) (declares : ∀ arg ∈ args, table.DeclaresAll arg)
      (enclosing : Enclosing table around) :
      Enclosing table (.applied feature args (some around) isRef isThis)

/-- A feature applied to fitting actuals.  If it is inside an outer type, then this and the
actuals are in order. -/
structure Located (table : FeatureTable) (feature : FeatureId) (args : List Ty)
    (outer : Option Ty) : Prop where
  fits : table.Fits feature args.length
  typed : ∀ arg ∈ args, arg ≠ .error
  enclosing : ∀ around, outer = some around →
    table.Enclosing around ∧ ∀ arg ∈ args, table.DeclaresAll arg

variable {table : FeatureTable} {unfold : TypeId → Ty}

theorem Regular.declaresAll_replace (regular : table.Regular unfold) {owner : FeatureId}
    {actuals : List Ty} (fits : table.Fits owner actuals.length)
    (declares : ∀ actual ∈ actuals, table.DeclaresAll actual) {ty : Ty}
    (covered : table.DeclaresAll ty) :
    table.DeclaresAll (ty.replace (table.resolution unfold owner actuals)) := by
  apply Ty.Over.replace
  apply covered.mono
  intro id declaresFormal
  by_cases inherits : table.Inherits owner id.feature
  · have resolves := regular.resolves_resolution fits fun _ => declaresFormal
    exact resolves.over_formals regular fits inherits declares
  · rw [resolution_eq regular.acyclic (.unrelated inherits)]
    exact Ty.over_formal_iff.mpr declaresFormal

/-- The formal is declared by the ancestor that `parent` leads to or above it, and the
earlier parents do not lead there. -/
def FirstReaches (table : FeatureTable) (earlier : List Parent) (parent : Parent)
    (id : FormalId) : Prop :=
  table.Reaches parent.ancestor id ∧ ∀ other ∈ earlier, ¬ table.Inherits other.ancestor id.feature

theorem Regular.replace_through_parent (regular : table.Regular unfold) {heir : FeatureId}
    {declared : Feature} (found : table.get heir = .ok declared) {earlier rest : List Parent}
    {parent : Parent} (split : declared.parents = earlier ++ parent :: rest) {args : List Ty}
    (fits : table.Fits heir args.length) {ty : Ty}
    (covered : ty.Over (table.FirstReaches earlier parent) table.Declares)
    (around : FormalId → Ty) :
    ty.replace (fun id => (table.resolution unfold heir args id).replace around) =
      ty.replace (table.resolution unfold parent.ancestor ((parent.actuals.map unfold).map
        (Ty.replace fun id => (table.resolution unfold heir args id).replace around))) := by
  have member : parent ∈ declared.parents := by simp [split]
  have parentFits : table.Fits parent.ancestor (parent.actuals.map unfold).length := by
    simpa using regular.actuals_fit heir declared found parent member
  have reaches : ty.Over (table.Reaches parent.ancestor) table.Declares :=
    covered.mono fun _ first => first.1
  have pending : ty.Over (table.Pending heir earlier) table.Declares :=
    covered.mono fun _ first => ⟨fun _ => first.1.2, first.2⟩
  rw [← regular.replace_resolution parentFits reaches]
  calc ty.replace (fun id => (table.resolution unfold heir args id).replace around)
    _ = (ty.replace (table.resolution unfold heir args)).replace around :=
        (Ty.replace_replace _ _ _).symm
    _ = ((ty.replace (table.seenThrough unfold parent)).replace
          (table.resolution unfold heir args)).replace around := by
        rw [regular.replace_seenThrough found split fits pending]
    _ = _ := Ty.replace_replace _ _ _

end FeatureTable

namespace Checker

open Filter

section

variable {start : Checker}

/-- The target as seen from the source is found to be the target with its formals replaced,
and nothing is reported. -/
def Sees (start : Checker) (source target : Ty) (replacement : FormalId → Ty) : Prop :=
  ∀ᶠ depth in atTop, start.smoothViaWithin (· ≠ .error) depth source target =
    some (target.replace replacement)

variable (wellFormed : start.WellFormed) (regular : start.features.Regular start.types.tree)
  {feature : FeatureId} {args : List Ty} {target : Ty}

include wellFormed regular

theorem sees_outermost (substitutable : start.features.Substitutable feature args target)
    (isRef isThis : Bool) :
    start.Sees (.applied feature args none isRef isThis) target
      (start.features.resolution start.types.tree feature args) := by
  refine eventually_smoothVia (smooth_resolution wellFormed regular substitutable) ?_ isRef isThis
  exact rfl

theorem sees_inside (substitutable : start.features.Substitutable feature args target)
    {around : Ty} {replacement : FormalId → Ty}
    (sees : start.Sees around
      (target.replace (start.features.resolution start.types.tree feature args)) replacement)
    (isRef isThis : Bool) :
    start.Sees (.applied feature args (some around) isRef isThis) target fun id =>
      (start.features.resolution start.types.tree feature args id).replace replacement := by
  rw [Sees, ← Ty.replace_replace]
  refine eventually_smoothVia (smooth_resolution wellFormed regular substitutable) ?_ isRef isThis
  exact sees

theorem exists_replacement_of_enclosing {around : Ty}
    (enclosing : start.features.Enclosing around) :
    ∃ replacement : FormalId → Ty, ∀ target : Ty, start.features.DeclaresAll target →
      start.features.DeclaresAll (target.replace replacement) ∧
        start.Sees around target replacement := by
  have substitutable : ∀ {feature : FeatureId} {args : List Ty} {target : Ty},
      start.features.Fits feature args.length → (∀ arg ∈ args, start.features.DeclaresAll arg) →
        start.features.DeclaresAll target → start.features.Substitutable feature args target :=
    fun fits declares covered =>
      ⟨fits, fun arg member => (declares arg member).ne_error, covered.mono fun _ declared _ =>
        declared⟩
  induction enclosing with
  | outermost fits declares =>
    refine ⟨_, fun target covered => ⟨regular.declaresAll_replace fits declares covered, ?_⟩⟩
    exact sees_outermost wellFormed regular (substitutable fits declares covered) _ _
  | @inside feature args _ _ _ fits declares _ ih =>
    obtain ⟨replacement, sees⟩ := ih
    refine ⟨fun id => (start.features.resolution start.types.tree feature args id).replace
      replacement, fun target covered => ?_⟩
    obtain ⟨outerCovered, outerSees⟩ :=
      sees _ (regular.declaresAll_replace fits declares covered)
    rw [← Ty.replace_replace]
    exact ⟨outerCovered, sees_inside wellFormed regular (substitutable fits declares covered)
      outerSees _ _⟩

/-! ## Seen directly and through a parent -/

theorem exists_replacement_of_located {outer : Option Ty}
    (located : start.features.Located feature args outer) (isRef isThis : Bool) :
    ∃ around : FormalId → Ty, ∀ target : Ty, start.features.DeclaresAll target →
      (target.replace (start.features.resolution start.types.tree feature args)).replace around ≠
        .error ∧
        start.Sees (.applied feature args outer isRef isThis) target fun id =>
          (start.features.resolution start.types.tree feature args id).replace around := by
  have substitutable : ∀ {target : Ty}, start.features.DeclaresAll target →
      start.features.Substitutable feature args target :=
    fun covered => ⟨located.fits, located.typed, covered.mono fun _ declared _ => declared⟩
  cases outer with
  | none =>
    refine ⟨(.formal · false), fun target covered => ?_⟩
    simp only [Ty.replace_self]
    refine ⟨regular.replace_resolution_ne_error located.fits located.typed
      (substitutable covered).target_over, ?_⟩
    exact sees_outermost wellFormed regular (substitutable covered) _ _
  | some outer =>
    obtain ⟨enclosing, declares⟩ := located.enclosing outer rfl
    obtain ⟨around, sees⟩ := exists_replacement_of_enclosing wellFormed regular enclosing
    refine ⟨around, fun target covered => ?_⟩
    obtain ⟨outerCovered, outerSees⟩ :=
      sees _ (regular.declaresAll_replace located.fits declares covered)
    exact ⟨outerCovered.ne_error,
      sees_inside wellFormed regular (substitutable covered) outerSees _ _⟩

end

/-- The target as seen from the source, and as seen from the ancestor type that the source
sees. -/
def viewBothWays (source ancestor target : TypeId) : CheckM (TypeId × TypeId) := do
  let directly ← substituteVia source target
  let above ← substituteVia source ancestor
  let throughAncestor ← substituteVia above target
  return (directly, throughAncestor)

theorem realizes_viewBothWays {start origin checker : Checker} {admits : Ty → Prop}
    (resumes : start.Resumes admits origin checker) {sourceId ancestorId targetId : TypeId}
    {source ancestor target : Ty} (sourceDenotes : checker.types.Denotes sourceId source)
    (ancestorDenotes : checker.types.Denotes ancestorId ancestor)
    (targetDenotes : checker.types.Denotes targetId target) :
    Realizes (.smooth start admits origin) checker (viewBothWays sourceId ancestorId targetId) (do
      let directly ← start.smoothViaWithin admits checker.options.depthLimit source target
      let above ← start.smoothViaWithin admits checker.options.depthLimit source ancestor
      let throughAncestor ← start.smoothViaWithin admits checker.options.depthLimit above target
      return (directly, throughAncestor)) fun after results values =>
        after.types.Denotes results.1 values.1 ∧ after.types.Denotes results.2 values.2 := by
  refine .bind (realizes_substituteVia resumes sourceDenotes targetDenotes) ?_
  intro after₁ directly directly' resumes₁ onward₁ directlyDenotes
  have carry₁ := fun {id : TypeId} {ty : Ty} (denotes : checker.types.Denotes id ty) =>
    resumes.denotes resumes₁.toObeys onward₁ denotes
  rw [← onward₁.options_eq]
  refine .bind (realizes_substituteVia resumes₁ (carry₁ sourceDenotes)
    (carry₁ ancestorDenotes)) ?_
  intro after₂ above above' resumes₂ onward₂ aboveDenotes
  rw [← onward₂.options_eq]
  refine .bind (realizes_substituteVia resumes₂ aboveDenotes
    (resumes₁.denotes resumes₂.toObeys onward₂ (carry₁ targetDenotes))) ?_
  intro after₃ throughAncestor throughAncestor' resumes₃ onward₃ throughDenotes
  exact .pure resumes₃ ⟨resumes₁.denotes resumes₃.toObeys (onward₂.trans onward₃) directlyDenotes,
    throughDenotes⟩

/-- A type is seen from a feature as it is seen from the ancestor of a parent, unless an
earlier parent leads to the formals in question as well. -/
theorem substituteVia_parent
    (start : Checker) (reachable : start.Reachable)
    (regular : start.features.Regular start.types.tree)
    (inUniverse : ∀ id declared, start.features.get id = .ok declared → declared.inUniverse)
    {feature : FeatureId} {declared : Feature}
    (found : start.features.get feature = .ok declared)
    {before after : List Parent} {parent : Parent}
    (split : declared.parents = before ++ parent :: after)
    (source target : TypeId) (held : ∀ ty ∈ [source, target], start.types.Holds ty)
    {args : List Ty} {outer : Option Ty} {isRef isThis : Bool}
    (sourceEq : start.types.tree source = .applied feature args outer isRef isThis)
    (located : start.features.Located feature args outer)
    (covered : (start.types.tree target).Over (start.features.FirstReaches before parent)
      start.features.Declares) :
    ∃ enough, ∀ checker : Checker, checker.types = start.types →
      checker.features = start.features → checker.Faithful →
      enough ≤ checker.options.depthLimit →
        ∃ result after, (viewBothWays source parent.ty target).run checker =
          .ok (result, result) after := by
  simp only [List.forall_mem_cons] at held
  obtain ⟨sourceHeld, targetHeld, _⟩ := held
  have wellFormed := reachable.sound.toWellFormed
  have coherent := wellFormed.types_canonical.toCoherent
  -- The type of the parent is its ancestor applied to the actuals.
  obtain ⟨parentHeld, ancestor, outerId, ancestorFound, node, outermost⟩ :=
    (reachable.built.orderly.each feature declared found).parent_spelled parent (by simp [split])
  have parentEq : start.types.tree parent.ty =
      .applied parent.ancestor (parent.actuals.map start.types.tree) none ancestor.isRef false := by
    rw [TypeStore.tree_eq coherent parentHeld, node,
      outermost (inUniverse parent.ancestor ancestor ancestorFound), Node.toTy, Option.map_none]
  have member : parent ∈ declared.parents := by simp [split]
  have fits : start.features.Fits parent.ancestor (parent.actuals.map start.types.tree).length := by
    simpa using regular.actuals_fit feature declared found parent member
  have actualsDeclared : ∀ actual ∈ parent.actuals.map start.types.tree,
      start.features.DeclaresAll actual := by
    rw [List.forall_mem_map]
    intro actual present
    exact (regular.actuals_over feature declared found parent member actual present).mono
      fun _ own => own.2
  have ancestorDeclared : start.features.DeclaresAll (.applied parent.ancestor
      (parent.actuals.map start.types.tree) none ancestor.isRef false) :=
    Ty.over_applied_iff.mpr
      ⟨FeatureTable.index_lt_size ancestorFound, actualsDeclared, by simp⟩
  have targetDeclared : start.features.DeclaresAll (start.types.tree target) :=
    covered.mono fun _ first => first.1.2
  obtain ⟨around, sees⟩ := exists_replacement_of_located wellFormed regular located isRef isThis
  have resultEq := regular.replace_through_parent found split located.fits covered around
  have substitutable : start.features.Substitutable parent.ancestor
      ((parent.actuals.map start.types.tree).map (Ty.replace fun id =>
        (start.features.resolution start.types.tree feature args id).replace around))
      (start.types.tree target) := by
    refine ⟨by simpa using fits, ?_, targetDeclared.mono fun _ declared _ => declared⟩
    intro actual present
    obtain ⟨original, originalPresent, rfl⟩ := List.mem_map.mp present
    rw [← Ty.replace_replace]
    exact (sees original (actualsDeclared original originalPresent)).1
  have seesAncestor := (sees _ ancestorDeclared).2
  rw [Sees, Ty.replace_applied, Option.map_none] at seesAncestor
  obtain ⟨enough, settled⟩ := eventually_atTop.mp (((sees _ targetDeclared).2.and seesAncestor).and
    (sees_outermost wellFormed regular substitutable ancestor.isRef false))
  refine ⟨enough, fun checker typesEq featuresEq faithful deep => ?_⟩
  obtain ⟨⟨seesTarget, seesAncestor⟩, seesAbove⟩ := settled _ deep
  have denotes : ∀ {ty : TypeId} {tree : Ty}, start.types.Holds ty → start.types.tree ty = tree →
      checker.types.Denotes ty tree := by
    intro ty tree tyHeld treeEq
    rw [typesEq]
    exact ⟨tyHeld, treeEq⟩
  have realizes := realizes_viewBothWays
    (Resumes.of_faithful typesEq featuresEq faithful (· ≠ .error))
    (denotes sourceHeld sourceEq) (denotes parentHeld parentEq) (denotes targetHeld rfl)
  simp only [seesTarget, seesAncestor, seesAbove, Option.bind_eq_bind, Option.bind_some]
    at realizes
  obtain ⟨⟨directly, throughAncestor⟩, last, run, resumes, _, directlyDenotes, throughDenotes⟩ :=
    realizes.exists_run
  obtain rfl : directly = throughAncestor :=
    (directlyDenotes.inj throughDenotes resumes.types_canonical.toCoherent).mpr resultEq
  exact ⟨directly, last, run⟩

/-- The first parent of the heir leads to its ancestor through an actual that is itself an
applied feature. -/
theorem substituteVia_parent_range :
    let start := afterAll (rangeOperations ++ [.construct (.instantiate ⟨4⟩ [⟨3⟩])]) {}
    start.features.Regular start.types.tree ∧
      ∃ declared parent rest, start.features.get ⟨4⟩ = .ok declared ∧
        declared.parents = parent :: rest ∧ parent.ancestor = ⟨3⟩ ∧
        ∃ enough, ∀ depthLimit ≥ enough, ∃ result after,
          (viewBothWays ⟨12⟩ parent.ty ⟨11⟩).run (start.limited depthLimit) =
            .ok (result, result) after := by
  intro start
  have reachable : start.Reachable := (Reachable.initial {} {}).steps (by decide +kernel)
  have regular : start.features.Regular start.types.tree := by
    refine ⟨FeatureTable.acyclic_of_index_lt ?_, ?_, ?_, ?_, ?_⟩
    all_goals exact FeatureTable.forall_declared (by decide +kernel)
  have inUniverse : ∀ id declared, start.features.get id = .ok declared → declared.inUniverse :=
    FeatureTable.forall_declared (by decide +kernel)
  have listed : start.features.features[4]?.map (·.parents.map Parent.ancestor) =
      some [⟨3⟩, ⟨2⟩] := by decide +kernel
  obtain ⟨declared, present, ancestors⟩ := Option.map_eq_some_iff.mp listed
  have found : start.features.get ⟨4⟩ = .ok declared := FeatureTable.get_eq_ok_iff.mpr present
  have sourceEq : start.types.tree ⟨12⟩ =
      .applied ⟨4⟩ [start.types.tree ⟨3⟩] none true false := by decide +kernel
  obtain ⟨parent, rest, split, ancestorEq, _⟩ := List.map_eq_cons_iff.mp ancestors
  have located : start.features.Located ⟨4⟩ [start.types.tree ⟨3⟩] none :=
    ⟨by decide +kernel, by decide +kernel, by simp⟩
  have targetOver : (start.types.tree ⟨11⟩).Over (· = ⟨⟨2⟩, 0⟩) start.features.Declares := by
    decide +kernel
  have reaches : start.features.FirstReaches [] parent ⟨⟨2⟩, 0⟩ := by
    rw [FeatureTable.FirstReaches, ancestorEq]
    exact ⟨⟨.single (by decide +kernel), by decide +kernel⟩, by simp⟩
  obtain ⟨enough, runs⟩ := substituteVia_parent start reachable regular inUniverse found split
    ⟨12⟩ ⟨11⟩ (by decide +kernel) sourceEq located (targetOver.mono fun id same => same ▸ reaches)
  have faithful : start.Faithful := reachable.faithful (by decide +kernel)
  clear_value start
  exact ⟨regular, declared, parent, rest, found, split, ancestorEq, enough,
    fun depthLimit => runs (start.limited depthLimit) rfl rfl (faithful.limited depthLimit)⟩

end Checker

end FeatureTypes

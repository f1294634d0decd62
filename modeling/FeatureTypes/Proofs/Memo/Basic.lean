import FeatureTypes.Checker.Substitution
import Std.Data.TreeMap.Lemmas

/-!
# Memo tables
-/

namespace FeatureTypes

/-! ## Keys -/

instance : Std.TransOrd SubstitutionKey :=
  inferInstanceAs (Std.TransCmp
    (compareLex (compareOn fun key : SubstitutionKey => key.target.index) <|
      compareLex (compareOn (·.owner.index)) (compareOn (·.actuals.map TypeId.index))))

instance : Std.TransOrd ViewKey :=
  inferInstanceAs (Std.TransCmp
    (compareLex (compareOn fun key : ViewKey => key.source.index) (compareOn (·.target.index))))

theorem SubstitutionKey.eq_of_compare {key key' : SubstitutionKey} (same : compare key key' = .eq) :
    key = key' := by
  obtain ⟨⟨target⟩, ⟨owner⟩, actuals⟩ := key
  obtain ⟨⟨target'⟩, ⟨owner'⟩, actuals'⟩ := key'
  obtain ⟨targetEq, rest⟩ := compareLex_eq_eq.mp same
  obtain ⟨ownerEq, actualsEq⟩ := compareLex_eq_eq.mp rest
  simp only [compareOn, Std.LawfulEqOrd.compare_eq_iff_eq] at targetEq ownerEq actualsEq
  have index_injective : Function.Injective TypeId.index := by
    rintro ⟨left⟩ ⟨right⟩ indexEq
    exact congrArg TypeId.mk indexEq
  rw [targetEq, ownerEq, (List.map_inj_right index_injective).mp actualsEq]

theorem ViewKey.eq_of_compare {key key' : ViewKey} (same : compare key key' = .eq) :
    key = key' := by
  obtain ⟨⟨source⟩, ⟨target⟩⟩ := key
  obtain ⟨⟨source'⟩, ⟨target'⟩⟩ := key'
  obtain ⟨sourceEq, targetEq⟩ := compareLex_eq_eq.mp same
  simp only [compareOn, Std.LawfulEqOrd.compare_eq_iff_eq] at sourceEq targetEq
  rw [sourceEq, targetEq]

instance : Std.LawfulEqOrd SubstitutionKey :=
  ⟨SubstitutionKey.eq_of_compare⟩

instance : Std.LawfulEqOrd ViewKey :=
  ⟨ViewKey.eq_of_compare⟩

namespace Memo

variable {κ ν : Type} [Ord κ] (memo : Memo κ ν)

theorem consult_fst (key : κ) : (memo.consult key).1 = memo.entries[key]? := by
  unfold consult
  cases memo.entries[key]? <;> rfl

@[simp]
theorem consult_entries (key : κ) : (memo.consult key).2.entries = memo.entries := by
  unfold consult
  cases memo.entries[key]? <;> rfl

@[simp]
theorem remember_self [Std.TransOrd κ] (key : κ) (value : ν) :
    (memo.remember key value).entries[key]? = some value :=
  Std.TreeMap.getElem?_insert_self

theorem remember_of_ne [Std.TransOrd κ] [Std.LawfulEqOrd κ] {key other : κ} (value : ν)
    (different : other ≠ key) :
    (memo.remember key value).entries[other]? = memo.entries[other]? := by
  rw [remember, Std.TreeMap.getElem?_insert, if_neg]
  exact fun same => different (Std.LawfulEqOrd.eq_of_compare same).symm

/-- What is found was just remembered or was there before. -/
theorem remember_cases [Std.TransOrd κ] {key key' : κ} {value result : ν}
    (found : (memo.remember key value).entries[key']? = some result) :
    compare key key' = .eq ∧ value = result ∨ memo.entries[key']? = some result := by
  simp only [remember, Std.TreeMap.getElem?_insert] at found
  split at found
  · exact Or.inl ⟨‹_›, Option.some.inj found⟩
  · exact Or.inr found

end Memo

namespace Checker

/-! ## Memoized computations -/

/-- Without memo tables everything is worked out anew. -/
theorem run_memoized_off {known : CheckM (Option TypeId)} {remember : TypeId → CheckM Unit}
    {compute : CheckM TypeId} {checker : Checker} (off : checker.options.memoize = false) :
    (memoized known remember compute).run checker = compute.run checker := by
  simp [memoized, EStateM.run_bind, EStateM.run_get, off]

theorem run_memoized_on {known : CheckM (Option TypeId)} {remember : TypeId → CheckM Unit}
    {compute : CheckM TypeId} {checker : Checker} (on : checker.options.memoize = true) :
    (memoized known remember compute).run checker = (do
      match ← known with
      | some result => return result
      | none =>
        let result ← compute
        remember result
        return result : CheckM TypeId).run checker := by
  simp only [memoized, EStateM.run_bind, EStateM.run_get, on]
  rfl

theorem run_recallByOwner (key : SubstitutionKey) (checker : Checker) :
    (recallByOwner key).run checker = .ok checker.byOwner.entries[key]?
      { checker with byOwner := (checker.byOwner.consult key).2 } := by
  rw [← Memo.consult_fst]
  rfl

theorem run_recallViaType (key : ViewKey) (checker : Checker) :
    (recallViaType key).run checker = .ok checker.viaType.entries[key]?
      { checker with viaType := (checker.viaType.consult key).2 } := by
  rw [← Memo.consult_fst]
  rfl

end Checker

end FeatureTypes

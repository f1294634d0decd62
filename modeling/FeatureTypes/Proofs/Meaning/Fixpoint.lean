import Mathlib.Data.List.Basic

/-!
# Solutions of recursive equations

Where every call of a function makes finitely many further calls, its equation has a
solution: the results that come about when it is unfolded to some depth.
-/

namespace FeatureTypes

variable {α β γ δ : Type}

/-! ## Finitely many calls -/

/-- The result comes about through finitely many calls, and stays the same if these have the
same results. -/
def Finitary (expression : (α → Option β) → Option γ) : Prop :=
  ∀ call result, expression call = some result → ∃ inputs : List α, ∀ call' : α → Option β,
    (∀ input ∈ inputs, ∀ output, call input = some output → call' input = some output) →
      expression call' = some result

namespace Finitary

theorem const (value : Option γ) : Finitary fun _ : α → Option β => value :=
  fun _ _ settled => ⟨[], fun _ _ => settled⟩

theorem call (input : α) : Finitary fun call : α → Option β => call input := by
  intro call result settled
  exact ⟨[input], fun call' agree => agree input (List.mem_singleton_self input) result settled⟩

/-- Calls that depend on the results of calls are finitely many still. -/
theorem bind {first : (α → Option β) → Option γ} {next : (α → Option β) → γ → Option δ}
    (firstFinitary : Finitary first)
    (nextFinitary : ∀ value, Finitary fun call => next call value) :
    Finitary fun call => first call >>= next call := by
  intro call result settled
  obtain ⟨value, firstSettled, nextSettled⟩ := Option.bind_eq_some_iff.mp settled
  obtain ⟨inputs, keeps⟩ := firstFinitary call value firstSettled
  obtain ⟨inputs', keeps'⟩ := nextFinitary value call result nextSettled
  refine ⟨inputs ++ inputs', fun call' agree => ?_⟩
  rw [List.forall_mem_append] at agree
  exact Option.bind_eq_some_iff.mpr ⟨value, keeps call' agree.1, keeps' call' agree.2⟩

theorem branch {condition : Prop} [Decidable condition] {first second : (α → Option β) → Option γ}
    (firstFinitary : Finitary first) (secondFinitary : Finitary second) :
    Finitary fun call => if condition then first call else second call := by
  by_cases holds : condition
  · simpa only [holds, if_true] using firstFinitary
  · simpa only [holds, if_false] using secondFinitary

section

variable {visit : (α → Option β) → γ → Option δ}
  (visitFinitary : ∀ item, Finitary fun call => visit call item)

include visitFinitary

theorem mapM (list : List γ) : Finitary fun call => list.mapM (visit call) := by
  induction list with
  | nil => exact const _
  | cons head tail ih =>
    simp only [List.mapM_cons]
    exact bind (visitFinitary head) fun first =>
      bind ih fun others => const _

theorem optionMapM (option : Option γ) : Finitary fun call => option.mapM (visit call) := by
  cases option with
  | none => exact const _
  | some item =>
    simp only [Option.mapM_some, map_eq_pure_bind]
    exact bind (visitFinitary item) fun result => const _

end

theorem foldlM {visit : (α → Option β) → δ → γ → Option δ}
    (visitFinitary : ∀ state item, Finitary fun call => visit call state item) (list : List γ)
    (state : δ) : Finitary fun call => list.foldlM (visit call) state := by
  induction list generalizing state with
  | nil => exact const _
  | cons head tail ih =>
    simp only [List.foldlM_cons]
    exact bind (visitFinitary state head) ih

end Finitary

/-! ## Solutions -/

/-- What the equation settles when it is unfolded to the given depth. -/
def unfolding (step : (α → Option β) → α → Option β) : (depth : Nat) → (input : α) → Option β
  | 0 => fun _ => none
  | depth + 1 => step (unfolding step depth)

open Classical in
/-- What the equation settles when it is unfolded to some depth. -/
noncomputable def solution (step : (α → Option β) → α → Option β) (input : α) : Option β :=
  if settled : ∃ output depth, unfolding step depth input = some output then settled.choose
  else none

/-- What the equation keeps holds of every result. -/
theorem solution_induction {step : (α → Option β) → α → Option β} {motive : α → β → Prop}
    (keeps : ∀ call : α → Option β,
      (∀ input output, call input = some output → motive input output) →
        ∀ input output, step call input = some output → motive input output) {input : α}
    {output : β} (isSolution : solution step input = some output) : motive input output := by
  have unfolds : ∀ depth input output,
      unfolding step depth input = some output → motive input output := by
    intro depth
    induction depth with
    | zero =>
      intro input output settled
      cases settled
    | succ depth ih => exact keeps _ ih
  rw [solution] at isSolution
  split at isSolution
  next settled =>
    obtain rfl := Option.some.inj isSolution
    obtain ⟨depth, settled⟩ := settled.choose_spec
    exact unfolds depth input _ settled
  next => cases isSolution

section

variable {step : (α → Option β) → α → Option β}
  (finitary : ∀ input, Finitary fun call => step call input)

include finitary

theorem unfolding_succ {depth : Nat} {input : α} {output : β}
    (settled : unfolding step depth input = some output) :
    unfolding step (depth + 1) input = some output := by
  induction depth generalizing input output with
  | zero => cases settled
  | succ depth ih =>
    obtain ⟨inputs, keeps⟩ := finitary input _ output settled
    exact keeps _ fun input _ output => ih

theorem unfolding_of_le {depth depth' : Nat} (deeper : depth ≤ depth') {input : α} {output : β}
    (settled : unfolding step depth input = some output) :
    unfolding step depth' input = some output := by
  induction deeper with
  | refl => exact settled
  | step _ ih => exact unfolding_succ finitary ih

theorem solution_eq_some_iff {input : α} {output : β} :
    solution step input = some output ↔ ∃ depth, unfolding step depth input = some output := by
  constructor
  · intro isSolution
    rw [solution] at isSolution
    split at isSolution
    next settled =>
      obtain rfl := Option.some.inj isSolution
      exact settled.choose_spec
    next => cases isSolution
  · rintro ⟨depth, settled⟩
    have some_settled : ∃ output depth, unfolding step depth input = some output :=
      ⟨output, depth, settled⟩
    rw [solution, dif_pos some_settled]
    obtain ⟨depth', settled'⟩ := some_settled.choose_spec
    rw [← unfolding_of_le finitary (Nat.le_max_left depth depth') settled]
    exact (unfolding_of_le finitary (Nat.le_max_right depth depth') settled').symm

theorem solution_map (rename : α → α) (change : β → β)
    (commutes : ∀ call : α → Option β, (∀ input, call (rename input) = (call input).map change) →
      ∀ input, step call (rename input) = (step call input).map change) (input : α) :
    solution step (rename input) = (solution step input).map change := by
  have unfolds : ∀ depth input,
      unfolding step depth (rename input) = (unfolding step depth input).map change := by
    intro depth
    induction depth with
    | zero => exact fun _ => rfl
    | succ depth ih => exact commutes _ ih
  apply Option.ext
  intro output
  simp only [solution_eq_some_iff finitary, Option.map_eq_some_iff, unfolds]
  constructor
  · rintro ⟨depth, value, settled, changed⟩
    exact ⟨value, ⟨depth, settled⟩, changed⟩
  · rintro ⟨value, ⟨depth, settled⟩, changed⟩
    exact ⟨depth, value, settled, changed⟩

theorem exists_depth (inputs : List α) :
    ∃ depth, ∀ input ∈ inputs, ∀ output, solution step input = some output →
      unfolding step depth input = some output := by
  induction inputs with
  | nil => exact ⟨0, by simp⟩
  | cons head tail ih =>
    obtain ⟨depth, enough⟩ := ih
    by_cases settled : ∃ output depth, unfolding step depth head = some output
    · obtain ⟨output, depth', settled⟩ := settled
      refine ⟨max depth depth', List.forall_mem_cons.mpr ⟨?_, ?_⟩⟩
      · intro output' isSolution
        rw [(solution_eq_some_iff finitary).mpr ⟨depth', settled⟩] at isSolution
        obtain rfl := Option.some.inj isSolution
        exact unfolding_of_le finitary (Nat.le_max_right depth depth') settled
      · intro input member output isSolution
        exact unfolding_of_le finitary (Nat.le_max_left depth depth')
          (enough input member output isSolution)
    · refine ⟨depth, List.forall_mem_cons.mpr ⟨?_, enough⟩⟩
      intro output isSolution
      exact absurd ⟨output, (solution_eq_some_iff finitary).mp isSolution⟩ settled

/-- The solution solves the equation. -/
theorem solution_eq (input : α) : solution step input = step (solution step) input := by
  apply Option.ext
  intro output
  rw [solution_eq_some_iff finitary]
  constructor
  · rintro ⟨depth, settled⟩
    cases depth with
    | zero => cases settled
    | succ depth =>
      obtain ⟨inputs, keeps⟩ := finitary input _ output settled
      exact keeps _ fun input _ output settled =>
        (solution_eq_some_iff finitary).mpr ⟨depth, settled⟩
  · intro settled
    obtain ⟨inputs, keeps⟩ := finitary input _ output settled
    obtain ⟨depth, enough⟩ := exists_depth finitary inputs
    exact ⟨depth + 1, keeps _ enough⟩

end

end FeatureTypes

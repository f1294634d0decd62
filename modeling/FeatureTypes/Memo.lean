import Std.Data.TreeMap

/-!
# Memo tables

A memo table remembers results by key and counts how often it was asked in
vain.  Clearing it drops the results and keeps the counts.
-/

namespace FeatureTypes

/-- Remembered results together with the number of successful and of vain
look-ups. -/
structure Memo (κ ν : Type) [Ord κ] where
  entries : Std.TreeMap κ ν := {}
  hits : Nat := 0
  misses : Nat := 0

namespace Memo

variable {κ ν : Type} [Ord κ]

/-- The number of keys with a remembered result. -/
def size (memo : Memo κ ν) : Nat :=
  memo.entries.size

/-- The result remembered for `key`, and the table with the look-up counted. -/
def consult (memo : Memo κ ν) (key : κ) : Option ν × Memo κ ν :=
  match memo.entries[key]? with
  | some value => (some value, { memo with hits := memo.hits + 1 })
  | none => (none, { memo with misses := memo.misses + 1 })

/-- Remembers `value` for `key`, in place of any earlier result for it. -/
def remember (memo : Memo κ ν) (key : κ) (value : ν) : Memo κ ν :=
  { memo with entries := memo.entries.insert key value }

/-- Forgets all results. -/
def clear (memo : Memo κ ν) : Memo κ ν :=
  { memo with entries := {} }

end Memo

end FeatureTypes

import FeatureTypes.Checker.Substitution

/-!
# Summands of a choice

A choice type holds a value of one of its summands.
-/

namespace FeatureTypes.Checker

/-- `summands?` with calls nested at most `depth` deep. -/
def summandsWithin? (depth : Nat) (ty : TypeId) : CheckM (Option (List TypeId)) := do
  match ← node ty with
  | .applied id args _ _ _ =>
    match (← feature id).summands with
    | none => return none
    | some declared =>
      let summands ← substituteListWithin depth id args declared
      return some (← summands.mapM fun summand => replaceThis summand ty)
  | _ => return none

/-- The summands of a choice type, for its arguments and as seen from it. -/
def summands? (ty : TypeId) : CheckM (Option (List TypeId)) :=
  withinLimit fun depth => summandsWithin? depth ty

end FeatureTypes.Checker

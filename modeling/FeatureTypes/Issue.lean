import FeatureTypes.Span

/-!
# Issues

Mistakes in the program under analysis.  An issue has a message, a code, the
text that labels its place in the source, and for some kinds a hint.
-/

namespace FeatureTypes

/-- A mistake in the program under analysis; types and features are given as
they are shown to people. -/
inductive Issue where
  /-- An open formal was used where one type is needed. -/
  | illegalOpenFormal (name : String)
  /-- A choice was used as a reference type. -/
  | refToChoice (ty : String)
  /-- Two summands of a choice overlap. -/
  | overlappingSummands (ty first second : String)
  /-- An actual does not meet the constraint of its formal. -/
  | incompatibleActual (formal constraint actual : String)
  /-- The number of actuals does not fit the formals. -/
  | wrongActualCount (feature expected : String) (found : Nat)

namespace Issue

/-- What is wrong, in one sentence. -/
def message : Issue → String
  | .illegalOpenFormal name => s!"illegal use of open formal generic type '{name}'"
  | .refToChoice ty => s!"choice type '{ty}' must not be a reference type"
  | .overlappingSummands ty first second =>
    s!"generics of choice type '{ty}' must be disjoint: '{first}' and '{second}' overlap"
  | .incompatibleActual formal constraint actual =>
    s!"actual generic '{actual}' is not compatible with constraint '{constraint}' of '{formal}'"
  | .wrongActualCount feature expected found =>
    s!"wrong number of actual generics for '{feature}': expected {expected}, found {found}"

/-- The stable code of the kind of issue. -/
def code : Issue → String
  | .illegalOpenFormal _ => "E3001"
  | .refToChoice _ => "E3002"
  | .overlappingSummands _ _ _ => "E3003"
  | .incompatibleActual _ _ _ => "E3004"
  | .wrongActualCount _ _ _ => "E3005"

/-- How to mend it, where there is a general answer. -/
def help : Issue → Option String
  | .illegalOpenFormal _ =>
    some "an open generic may only be used as the last actual generic of a type"
  | .refToChoice _ => some "a choice holds exactly one of its summands by value"
  | _ => none

/-- The text beside the place in the source. -/
def label : Issue → String
  | .illegalOpenFormal _ => "declared open here"
  | .refToChoice _ => "reference to choice"
  | .overlappingSummands _ _ _ => "overlapping summands"
  | .incompatibleActual _ _ _ => "incompatible actual generic"
  | .wrongActualCount _ _ _ => "in this type"

end Issue

/-- An issue and its place in the source. -/
structure Report where
  issue : Issue
  span : Span

end FeatureTypes

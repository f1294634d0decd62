import FeatureTypes.Failure
import FeatureTypes.Ty.Store

/-!
# Events

What the checker writes into its journal while it works.  An event has a level,
a message and named fields.
-/

namespace FeatureTypes

/-- A check of a whole type that the journal shows on entry. -/
inductive Check where
  | choice
  | constraints

/-- Something that happened inside the checker. -/
inductive Event where
  /-- A substitution of the formals of `owner` in `target` is worked out. -/
  | substituting (target : TypeId) (owner : String)
  /-- A substitution in `target` failed because one in a part of it did. -/
  | substitutionFailed (target : TypeId)
  /-- A feature got its companion. -/
  | companionCreated (feature : String) (companion : FeatureId)
  /-- An issue was reported. -/
  | reported (message : String) (line column : Nat)
  /-- An assumption was broken after issues had been reported. -/
  | invariantWaived (what : Invariant) (reports : Nat)
  /-- An assumption was broken without any issue reported. -/
  | invariantBroken (what : Invariant)
  /-- The memo tables were cleared. -/
  | memosCleared (byOwner viaType : Nat)
  /-- A check of the named type began. -/
  | entered (check : Check) (typeName : String)

/-- The value of a field of an event. -/
inductive FieldValue where
  | number (value : Nat)
  | text (value : String)

namespace Event

/-- How important the event is. -/
def level : Event → String
  | .substituting _ _ => "TRACE"
  | .substitutionFailed _ => "WARN"
  | .companionCreated _ _ => "TRACE"
  | .reported _ _ _ => "DEBUG"
  | .invariantWaived _ _ => "WARN"
  | .invariantBroken _ => "ERROR"
  | .memosCleared _ _ => "DEBUG"
  | .entered _ _ => "SPAN"

/-- What happened. -/
def message : Event → String
  | .substituting _ _ => "substitute: cache miss"
  | .substitutionFailed _ => "substitution produced an error type"
  | .companionCreated _ _ => "created type feature"
  | .reported _ _ _ => "type error"
  | .invariantWaived _ _ => "invariant waived after earlier errors"
  | .invariantBroken _ => "invariant violated"
  | .memosCleared _ _ => "resetting substitution caches"
  | .entered .choice _ => "check_choice"
  | .entered .constraints _ => "check_constraints"

/-- The named details. -/
def fields : Event → List (String × FieldValue)
  | .substituting target owner => [("ty", .number target.index), ("owner", .text owner)]
  | .substitutionFailed target => [("ty", .number target.index)]
  | .companionCreated feature companion =>
    [("feature", .text feature), ("type_feature", .number companion.index)]
  | .reported message line column =>
    [("error", .text message), ("line", .number line), ("column", .number column)]
  | .invariantWaived what reports => [("what", .text what.text), ("errors", .number reports)]
  | .invariantBroken what => [("what", .text what.text)]
  | .memosCleared byOwner viaType => [("by_owner", .number byOwner), ("via_type", .number viaType)]
  | .entered _ typeName => [("type_name", .text typeName)]

end Event

end FeatureTypes

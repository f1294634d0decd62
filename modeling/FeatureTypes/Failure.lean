/-!
# Failures

Reasons for which an operation gives up without a result.  Mistakes in the
program under analysis are not among them: those are reported and the analysis
goes on (see `FeatureTypes.Issue`).
-/

namespace FeatureTypes

/-- Assumptions that the checker makes about the calls it receives.  A broken
assumption aborts a strict checker and is only noted by any other. -/
inductive Invariant where
  | actualsMatch
  | actualPresent
  | featurePresent
  | typeRootPresent
  deriving DecidableEq

/-- The wording of an assumption in logs and failures. -/
def Invariant.text : Invariant → String
  | .actualsMatch => "substitute: number of actual generics does not match formal generics"
  | .actualPresent => "substitute: missing actual generic"
  | .featurePresent => "replace_generics: type has no feature"
  | .typeRootPresent => "type_type: no type root declared"

/-- Why an operation ended without a result. -/
inductive Failure where
  /-- A feature was named that has not been declared. -/
  | unknownFeature
  /-- A symbol was resolved in a table that does not hold it. -/
  | unknownSymbol
  /-- The index of a shifted formal does not fit into 32 bits. -/
  | formalIndexOverflow
  /-- A formal was added behind an open one. -/
  | formalAfterOpen
  /-- A feature with formals was used as if it had none. -/
  | formalsPresent
  /-- A strict checker met a broken assumption. -/
  | broken (what : Invariant)
  /-- The metatype of a formal was asked for. -/
  | metatypeOfFormal
  /-- The calls nested deeper than the checker's depth limit. -/
  | depthExceeded
  deriving DecidableEq

/-- What there is to say about a failure beyond its kind. -/
def Failure.message? : Failure → Option String
  | .broken what => some what.text
  | .metatypeOfFormal => some "type_type of a formal generic"
  | .depthExceeded => some "calls nested too deeply"
  | _ => none

end FeatureTypes

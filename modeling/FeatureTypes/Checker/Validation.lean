import FeatureTypes.Checker.Assignability

/-!
# Validation

Checks of whole types, whose findings are reported: the summands of a choice
have to be disjoint, and the actuals of an applied feature have to meet the
constraints of the formals.
-/

namespace FeatureTypes.Checker

/-! ## Choices -/

/-- Whether two summands overlap: a value of one of them is a value of the
other.  What a formal stands for is not known, so it overlaps only itself. -/
def overlap (first second : TypeId) : CheckM Bool := do
  if first = second then return true
  if ← readTypes fun types => types.isFormal first || types.isFormal second then return false
  if ← isDirectlyAssignable first second then return true
  isDirectlyAssignable second first

/-- Reports two summands of `ty` that overlap.  Summands that could not be typed
are passed over. -/
def checkSummandPair (ty : TypeId) (span : Span) (first second : TypeId) : CheckM Unit := do
  if first = .error ∨ second = .error then return
  if ← overlap first second then
    report (.overlappingSummands (← display ty) (← display first) (← display second)) span

/-- Reports each pair of overlapping summands of `ty`, in the order of their
positions. -/
def checkSummandPairs (ty : TypeId) (span : Span) : (summands : List TypeId) → CheckM Unit
  | [] => return
  | first :: rest => do
    rest.forM (checkSummandPair ty span first)
    checkSummandPairs ty span rest

/-- Reports a choice type `ty` that is a reference. -/
def checkByValue (ty : TypeId) (span : Span) : CheckM Unit := do
  if ← readTypes (·.isRef ty) then report (.refToChoice (← display ty)) span

/-- Reports what is wrong with a choice type.  Other types pass. -/
def checkChoice (ty : TypeId) (span : Span) : CheckM Unit := do
  recordEntry .choice ty
  match ← summands? ty with
  | none => return
  | some summands =>
    checkByValue ty span
    checkSummandPairs ty span summands

/-! ## Constraints -/

/-- Whether `actual` meets the constraint of the formal it is passed for; a
breach is reported. -/
def checkMeets (depth : Nat) (span : Span) (formal : Formal) (actual : TypeId) : CheckM Bool := do
  if ← meetsConstraintWithin depth formal.constraint actual then return true
  report (.incompatibleActual formal.name (← display formal.constraint) (← display actual)) span
  return false

/-- Checks the constraint of a formal of the type `ty` in itself.  A constraint
that is `ty` is under way already. -/
def checkConstraintType (check : TypeId → CheckM TypeId) (ty constraint : TypeId) :
    CheckM Unit := do
  if constraint ≠ ty then
    let _ ← check constraint

/-- Checks one actual of `ty` against the formal it is passed for; the result is
whether it is in order.  `check` checks a type in itself. -/
def checkActual (check : TypeId → CheckM TypeId) (depth : Nat) (ty : TypeId) (span : Span)
    (formal : Formal) (actual : TypeId) : CheckM Bool := do
  let checked ← check actual
  checkConstraintType check ty formal.constraint
  let meets ← checkMeets depth span formal actual
  return checked ≠ .error && meets

/-- Checks the actuals of `ty`, paired with their formals, one by one. -/
def checkActuals (check : TypeId → CheckM TypeId) (depth : Nat) (ty : TypeId) (span : Span) :
    (pairs : List (Formal × TypeId)) → CheckM Bool
  | [] => return true
  | (formal, actual) :: rest => do
    let first ← checkActual check depth ty span formal actual
    let others ← checkActuals check depth ty span rest
    return first && others

/-- `checkConstraints` with calls nested at most `depth` deep. -/
def checkConstraintsWithin (span : Span) : (depth : Nat) → (ty : TypeId) → CheckM TypeId
  | 0, _ => throw .depthExceeded
  | depth + 1, ty => do
    recordEntry .constraints ty
    match ← node ty with
    | .applied id args _ _ _ =>
      let declared ← feature id
      if !declared.accepts args.length then
        report (.wrongActualCount declared.qualifiedName declared.expectedCount args.length) span
        return .error
      let pairs := declared.formals.zip args
      if ← checkActuals (checkConstraintsWithin span depth) depth ty span pairs then return ty
      return .error
    | _ => return ty

/-- Reports actuals in `ty` that do not fit the formals they are passed for.
The result is `ty`, or the error type if something was reported for it. -/
def checkConstraints (ty : TypeId) (span : Span) : CheckM TypeId :=
  withinLimit fun depth => checkConstraintsWithin span depth ty

end FeatureTypes.Checker

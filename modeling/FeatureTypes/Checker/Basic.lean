import FeatureTypes.Event
import FeatureTypes.Feature.Ancestry
import FeatureTypes.Issue
import FeatureTypes.Memo
import FeatureTypes.Ty.Display
import FeatureTypes.Ty.Order

/-!
# The checker

The checker holds the types and features of one program under analysis, the
issues found in it so far, and memo tables for substitution.  Its operations
run in `CheckM`: each reads and changes the checker, and may fail.  A failed
operation leaves behind what it did before it failed.
-/

namespace FeatureTypes

/-- How a checker works. -/
structure Options where
  /-- Remember the results of substitutions. -/
  memoize : Bool := true
  /-- Fail on a broken assumption as long as no issue is reported. -/
  strict : Bool := true
  /-- How deeply calls may nest that follow the parts, ancestors or constraints of
  a type.  No stack holds as many calls as the default allows. -/
  depthLimit : Nat := 1000000000000

/-- What the result of a substitution through a feature depends on. -/
structure SubstitutionKey where
  target : TypeId
  owner : FeatureId
  actuals : List TypeId

instance : Ord SubstitutionKey where
  compare := compareLex (compareOn (·.target.index)) <|
    compareLex (compareOn (·.owner.index)) (compareOn (·.actuals.map TypeId.index))

/-- What the result of a substitution through a type depends on. -/
structure ViewKey where
  source : TypeId
  target : TypeId

instance : Ord ViewKey where
  compare := compareLex (compareOn (·.source.index)) (compareOn (·.target.index))

/-- The events so far, latest first, kept only while `recording`. -/
structure Journal where
  recording : Bool := false
  events : List Event := []

/-- The state of an analysis. -/
structure Checker where
  types : TypeStore := .initial
  features : FeatureTable := .initial
  byOwner : Memo SubstitutionKey TypeId := {}
  viaType : Memo ViewKey TypeId := {}
  reports : Array Report := #[]
  options : Options := {}
  journal : Journal := {}

/-- An operation of the checker with a result of type `α`. -/
abbrev CheckM (α : Type) : Type :=
  EStateM Failure Checker α

namespace Checker

/-! ## Types and features -/

/-- Runs a store operation on the types. -/
def onTypes {α : Type} (operation : TypeStore → α × TypeStore) : CheckM α :=
  modifyGet fun checker =>
    let (result, types) := operation checker.types
    (result, { checker with types })

/-- Reads the types. -/
def readTypes {α : Type} (query : TypeStore → α) : CheckM α :=
  return query (← get).types

/-- Reads the features. -/
def readFeatures {α : Type} (query : FeatureTable → Except Failure α) : CheckM α := do
  match query (← get).features with
  | .ok result => return result
  | .error failure => throw failure

/-- Runs a declaration on the features. -/
def onFeatures {α : Type} (operation : FeatureTable → Except Failure (α × FeatureTable)) :
    CheckM α := do
  let (result, features) ← readFeatures operation
  modify fun checker => { checker with features }
  return result

/-- The type with number `ty`, one layer deep. -/
def node (ty : TypeId) : CheckM Node :=
  readTypes (·.node ty)

/-- The feature with number `id`. -/
def feature (id : FeatureId) : CheckM Feature :=
  readFeatures (·.get id)

/-- Changes the feature `id`. -/
def modifyFeature (id : FeatureId) (edit : Feature → Feature) : CheckM Unit :=
  onFeatures fun table => return ((), ← table.modify id edit)

/-- The ancestor that every companion gets, if one is declared. -/
def typeRoot? : CheckM (Option FeatureId) :=
  return (← get).features.typeRoot

/-- The formal `id`, if it is declared. -/
def formal? (id : FormalId) : CheckM (Option Formal) :=
  readFeatures (·.formal? id)

/-- The constraint of the formal `id`, if it is declared. -/
def constraint? (id : FormalId) : CheckM (Option TypeId) :=
  return (← formal? id).map Formal.constraint

/-- The declared formal that the type `ty` is. -/
def formalOf? (ty : TypeId) : CheckM (Option Formal) := do
  match ← readTypes (·.formalId? ty) with
  | some id => formal? id
  | none => return none

/-- Whether the type `ty` applies a choice. -/
def isChoice (ty : TypeId) : CheckM Bool := do
  match ← readTypes (·.feature? ty) with
  | some id => return (← feature id).isChoice
  | none => return false

/-- Whether the type `ty` applies a companion, that is, is a metatype. -/
def isMetatype (ty : TypeId) : CheckM Bool := do
  match ← readTypes (·.feature? ty) with
  | some id => return (← feature id).isCompanion
  | none => return false

/-- Whether the type `ty` is an open formal. -/
def isOpenFormal (ty : TypeId) : CheckM Bool :=
  return (← formalOf? ty).any Formal.isOpen

/-- The type `ty` held through a reference. -/
def asRef (ty : TypeId) : CheckM TypeId :=
  onTypes (·.asRef ty)

/-- The text that shows the type `ty`. -/
def display (ty : TypeId) : CheckM String := do
  let types := (← get).types
  readFeatures fun table => types.display table ty

/-- The order of two types. -/
def compare (left right : TypeId) : CheckM Ordering := do
  let types := (← get).types
  readFeatures fun table => types.compare table left right

/-- The order of two types up to their own outer types. -/
def compareIgnoringOuter (left right : TypeId) : CheckM Ordering := do
  let types := (← get).types
  readFeatures fun table => types.compareIgnoringOuter table left right

/-! ## Journal, reports and assumptions -/

/-- Writes an event into the journal, if that is kept. -/
def record (event : Event) : CheckM Unit :=
  modify fun checker =>
    if checker.journal.recording then
      { checker with journal := { checker.journal with
          events := event :: checker.journal.events } }
    else checker

/-- Writes into the journal that a check of `ty` began.  The text that shows
`ty` is only worked out for a journal that is kept. -/
def recordEntry (check : Check) (ty : TypeId) : CheckM Unit := do
  if (← get).journal.recording then
    record (.entered check (← display ty))

/-- Reports an issue. -/
def report (issue : Issue) (span : Span) : CheckM Unit := do
  record (.reported issue.message span.line span.column)
  modify fun checker => { checker with reports := checker.reports.push ⟨issue, span⟩ }

/-- Whether an issue has been reported. -/
def hasReports : CheckM Bool :=
  return 0 < (← get).reports.size

/-- Deals with an assumption that may be broken.  After the first report it is
waived, since the reported mistake may have caused the breach. -/
def expect (what : Invariant) (holds : Bool) : CheckM Unit := do
  if holds then return
  let checker ← get
  if 0 < checker.reports.size then record (.invariantWaived what checker.reports.size)
  else if checker.options.strict then throw (.broken what)
  else record (.invariantBroken what)

/-- Runs an operation within the depth limit of the checker. -/
def withinLimit {α : Type} (operation : (depth : Nat) → CheckM α) : CheckM α := do
  operation (← get).options.depthLimit

/-! ## Memo tables and restarts -/

/-- Forgets the remembered substitutions. -/
def clearMemos : CheckM Unit := do
  let checker ← get
  record (.memosCleared checker.byOwner.size checker.viaType.size)
  modify fun checker =>
    { checker with byOwner := checker.byOwner.clear, viaType := checker.viaType.clear }

/-- Hands over the reports made so far and starts without any. -/
def takeReports : CheckM (Array Report) :=
  modifyGet fun checker => (checker.reports, { checker with reports := #[] })

/-- Starts anew with the same types and features.  The memo tables start empty
and with their counts at zero. -/
def restart (options : Options) (keepReports : Bool) : CheckM Unit :=
  modify fun checker =>
    { checker with
      byOwner := {}
      viaType := {}
      reports := if keepReports then checker.reports else #[]
      options }

end Checker

end FeatureTypes

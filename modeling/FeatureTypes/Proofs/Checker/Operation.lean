import FeatureTypes.Checker.Metatype
import FeatureTypes.Checker.Validation
import FeatureTypes.Proofs.Store.Canonical

/-!
# Operations of a checker

What can be asked of a checker, as data: types are made, features are declared,
questions are put to the engine, and the checker is cleared or restarted.  An
operation may only use types that are stored.
-/

namespace FeatureTypes.Checker

/-- A call that makes a type. -/
inductive Construction where
  | intern (layer : Node)
  | formal (id : FormalId)
  | applied (feature : FeatureId) (args : List TypeId) (outer : Option TypeId) (isRef : Bool)
  | rebuild (ty : TypeId) (args : List TypeId) (outer : Option TypeId)
  | asRef (ty : TypeId)
  | asValue (ty : TypeId)
  | asThis (ty : TypeId)
  | shiftFormals (source target : FeatureId) (offset : Nat) (ty : TypeId)
  | selfType (id : FeatureId)
  | instantiate (id : FeatureId) (args : List TypeId)

namespace Construction

def run : Construction → CheckM TypeId
  | .intern layer => onTypes (·.intern layer)
  | .formal id => onTypes (·.formal id)
  | .applied feature args outer isRef => onTypes (·.applied feature args outer isRef)
  | .rebuild ty args outer => onTypes (·.rebuild ty args outer)
  | .asRef ty => onTypes (·.asRef ty)
  | .asValue ty => onTypes (·.asValue ty)
  | .asThis ty => onTypes (·.asThis ty)
  | .shiftFormals source target offset ty => Checker.shiftFormals source target offset ty
  | .selfType id => Checker.selfType id
  | .instantiate id args => Checker.instantiate id args

/-- The types that the call is given. -/
def uses : Construction → List TypeId
  | .intern layer => layer.children
  | .applied _ args outer _ => args ++ outer.toList
  | .rebuild ty args outer => ty :: args ++ outer.toList
  | .asRef ty | .asValue ty | .asThis ty | .shiftFormals _ _ _ ty => [ty]
  | .instantiate _ args => args
  | .formal _ | .selfType _ => []

end Construction

/-- A call that declares something. -/
inductive Declaration where
  | feature (name : String) (outer : Option FeatureId) (isRef : Bool)
  | formal (owner : FeatureId) (name : String) (constraint : TypeId) (isOpen : Bool) (span : Span)
  | parent (heir ancestor : FeatureId) (actuals : List TypeId)
  | choice (id : FeatureId) (summands : List TypeId)
  | typeRoot (root : FeatureId)

/-- A call of the engine. -/
inductive Call where
  | substitute (owner : FeatureId) (actuals : List TypeId) (target : TypeId)
  | substituteVia (source target : TypeId)
  | replaceFormals (ty : TypeId) (list : List TypeId)
  | summands (ty : TypeId)
  | metatype (ty : TypeId)
  | isAssignable (target actual : TypeId)
  | isAssignableCollecting (target actual : TypeId)
  | isDirectlyAssignable (target actual : TypeId)
  | isAssignableOrError (target actual : TypeId)
  | meetsConstraint (constraint actual : TypeId)
  | union (left right : TypeId)
  | checkChoice (ty : TypeId) (span : Span)
  | checkConstraints (ty : TypeId) (span : Span)
  | replaceThis (ty target : TypeId)
  | replaceThisFormal (owner : FeatureId) (replacement : FormalId) (ty : TypeId)
  | dropThisFormals (ty : TypeId)
  | liftFormals (id : FeatureId) (ty : TypeId)
  | ensureNotOpen (ty : TypeId)
  | report (issue : Issue) (span : Span)

/-- What a call gives back. -/
inductive Answer where
  | none
  | truth (holds : Bool)
  | type (ty : TypeId)
  | types (list : List TypeId)
  | summands (list : Option (List TypeId))
  | feature (id : Option FeatureId)
  | names (holds : Bool) (names : List String)
  deriving DecidableEq

namespace Declaration

def run : Declaration → CheckM Answer
  | .feature name outer isRef => return .feature (some (← declareFeature name outer isRef))
  | .formal owner name constraint isOpen span =>
    return .type (← declareFormal owner name constraint isOpen span)
  | .parent heir ancestor actuals => do
    declareParent heir ancestor actuals
    return .none
  | .choice id summands => do
    declareChoice id summands
    return .none
  | .typeRoot root => do
    declareTypeRoot root
    return .none

/-- The types that the declaration is given. -/
def uses : Declaration → List TypeId
  | .formal _ _ constraint _ _ => [constraint]
  | .parent _ _ actuals => actuals
  | .choice _ summands => summands
  | .feature _ _ _ | .typeRoot _ => []

end Declaration

namespace Call

def run : Call → CheckM Answer
  | .substitute owner actuals target => return .type (← Checker.substitute owner actuals target)
  | .substituteVia source target => return .type (← Checker.substituteVia source target)
  | .replaceFormals ty list => return .types (← Checker.replaceFormals ty list)
  | .summands ty => return .summands (← summands? ty)
  | .metatype ty => return .type (← Checker.metatype ty)
  | .isAssignable target actual => return .truth (← Checker.isAssignable target actual)
  | .isAssignableCollecting target actual => do
    let (holds, names) ← Checker.isAssignableCollecting target actual []
    return .names holds names
  | .isDirectlyAssignable target actual =>
    return .truth (← Checker.isDirectlyAssignable target actual)
  | .isAssignableOrError target actual =>
    return .truth (← Checker.isAssignableOrError target actual)
  | .meetsConstraint constraint actual =>
    return .truth (← Checker.meetsConstraint constraint actual)
  | .union left right => return .type (← Checker.union left right)
  | .checkChoice ty span => do
    Checker.checkChoice ty span
    return .none
  | .checkConstraints ty span => return .type (← Checker.checkConstraints ty span)
  | .replaceThis ty target => return .type (← Checker.replaceThis ty target)
  | .replaceThisFormal owner replacement ty =>
    return .type (← Checker.replaceThisFormal owner replacement ty)
  | .dropThisFormals ty => return .type (← Checker.dropThisFormals ty)
  | .liftFormals id ty => return .type (← Checker.liftFormals id ty)
  | .ensureNotOpen ty => return .truth (← Checker.ensureNotOpen ty)
  | .report issue span => do
    Checker.report issue span
    return .none

/-- The types that the call is given. -/
def uses : Call → List TypeId
  | .substitute _ actuals target => target :: actuals
  | .replaceFormals ty list => ty :: list
  | .substituteVia first second | .isAssignable first second
  | .isAssignableCollecting first second | .isDirectlyAssignable first second
  | .isAssignableOrError first second | .meetsConstraint first second | .union first second
  | .replaceThis first second => [first, second]
  | .summands ty | .metatype ty | .checkChoice ty _ | .checkConstraints ty _
  | .replaceThisFormal _ _ ty | .dropThisFormals ty | .liftFormals _ ty | .ensureNotOpen ty => [ty]
  | .report _ _ => []

end Call

/-- Anything that can be asked of a checker. -/
inductive Operation where
  | construct (construction : Construction)
  | declare (declaration : Declaration)
  | companion (id : FeatureId)
  | call (request : Call)
  | clearMemos
  | takeReports
  | restart (options : Options) (keepReports : Bool)

namespace Operation

def run : Operation → CheckM Answer
  | .construct construction => return .type (← construction.run)
  | .declare declaration => declaration.run
  | .companion id => return .feature (← companion? id)
  | .call request => request.run
  | .clearMemos => do
    Checker.clearMemos
    return .none
  | .takeReports => do
    let _ ← Checker.takeReports
    return .none
  | .restart options keepReports => do
    Checker.restart options keepReports
    return .none

/-- The types that the operation is given. -/
def uses : Operation → List TypeId
  | .construct construction => construction.uses
  | .declare declaration => declaration.uses
  | .call request => request.uses
  | .companion _ | .clearMemos | .takeReports | .restart _ _ => []

end Operation

end FeatureTypes.Checker

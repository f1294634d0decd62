import FeatureTypes.Checker.Enclosing

/-!
# Substitution

Substituting the formals of a feature by actuals also resolves the formals of
its ancestors, through the actuals that its parents were declared with.  The
ancestors may form a cycle, so a substitution need not come to an end; all
recursive operations here take the depth to which their calls may nest.

Each step of a substitution is written for an arbitrary `Substituter` to be used
on what lies further down; `substituteWithin` ties the knot.
-/

namespace FeatureTypes.Checker

/-- How the formals of a feature are replaced by actuals in a type. -/
abbrev Substituter : Type :=
  (owner : FeatureId) → (actuals : List TypeId) → (target : TypeId) → CheckM TypeId

/-- Whether the number of actuals fits the formals of `owner`. -/
def actualsMatch (owner : FeatureId) (actuals : List TypeId) : CheckM Bool :=
  return (← feature owner).accepts actuals.length

/-- Reports an open formal where one type is needed. -/
def ensureNotOpen (ty : TypeId) : CheckM Bool := do
  match ← formalOf? ty with
  | none => return true
  | some formal =>
    if !formal.isOpen then return true
    report (.illegalOpenFormal (← display ty)) formal.span
    return false

/-! ## Lists -/

/-- Whether `list` consists of the given formals, held by value. -/
def areFormals (formals : List Formal) (list : List TypeId) : CheckM Bool :=
  readTypes fun types => list.map types.node = formals.map fun formal => Node.formal formal.id false

/-- The position of the open formal of `owner` that the type `ty` is. -/
def openPosition? (owner : FeatureId) (ty : TypeId) : CheckM (Option Nat) := do
  match ← readTypes (·.formalId? ty) with
  | none => return none
  | some id =>
    if id.feature ≠ owner then return none
    if ← isOpenFormal ty then return some id.index
    return none

/-- The position of the open formal of `owner` that ends the list `ty :: rest`. -/
def trailingOpen? (owner : FeatureId) (ty : TypeId) (rest : List TypeId) : CheckM (Option Nat) :=
  if rest.isEmpty then openPosition? owner ty else return none

/-- Substitutes in each element.  An open formal of `owner` at the end gives way
to all actuals from its position on. -/
def substituteEach (substitute : Substituter) (owner : FeatureId) (actuals : List TypeId) :
    (list : List TypeId) → CheckM (List TypeId)
  | [] => return []
  | ty :: rest => do
    match ← trailingOpen? owner ty rest with
    | some position => return actuals.drop position
    | none =>
      let first ← substitute owner actuals ty
      return first :: (← substituteEach substitute owner actuals rest)

/-- Substitutes in a list.  The formals of `owner` themselves give way to the
actuals as a whole. -/
def substituteListBy (substitute : Substituter) (owner : FeatureId)
    (actuals list : List TypeId) : CheckM (List TypeId) := do
  if ← areFormals (← feature owner).formals list then return actuals
  substituteEach substitute owner actuals list

/-! ## Metatypes -/

/-- The type `ty` as seen from inside the type `self` and its outer types, at
most `depth` of them. -/
def seenFromWithin (substitute : Substituter) :
    (depth : Nat) → (self ty : TypeId) → CheckM TypeId
  | 0, _, _ => throw .depthExceeded
  | depth + 1, self, ty => do
    let ty ← replaceThis ty self
    match ← node self with
    | .applied id args outer _ _ =>
      if (← feature id).isUniverse then return ty
      match outer with
      | none => substitute id args ty
      | some outer => substitute id args (← seenFromWithin substitute depth outer ty)
    | _ => return ty

/-- The type `ty` as seen from inside the type `self`. -/
def seenFrom (substitute : Substituter) (self ty : TypeId) : CheckM TypeId :=
  seenFromWithin substitute (self.index + 1) self ty

/-- The arguments of a metatype, with those behind the first as seen from inside
the first, which is the type at hand. -/
def settleMetatypeArgs (substitute : Substituter) : (args : List TypeId) → CheckM (List TypeId)
  | [] => return []
  | self :: rest => do
    let rest ← rest.mapM fun ty => if ty = self then pure ty else seenFrom substitute self ty
    return self :: rest

/-- The substituted arguments of the type `ty`, settled if it is a metatype. -/
def settleArgs (substitute : Substituter) (ty : TypeId) (args : List TypeId) :
    CheckM (List TypeId) := do
  if ← isMetatype ty then settleMetatypeArgs substitute args else return args

/-! ## One step -/

/-- The actual for the formal `id`. -/
def actualFor (actuals : List TypeId) (id : FormalId) : CheckM TypeId := do
  match actuals[id.index]? with
  | some actual => return actual
  | none =>
    expect .actualPresent false
    return .error

/-- Replaces the type `ty`, which is the formal `id`, if it belongs to `owner`. -/
def substituteFormal (owner : FeatureId) (actuals : List TypeId) (ty : TypeId) (id : FormalId)
    (boxed : Bool) : CheckM TypeId := do
  if id.feature ≠ owner then return ty
  if !(← ensureNotOpen ty) then return .error
  let actual ← actualFor actuals id
  if boxed then asRef actual else return actual

/-- Substitutes in the parts of the type `ty`, which applies a feature to `args`
inside `outer`.  A part that cannot be typed makes the whole so. -/
def substituteParts (substitute : Substituter) (owner : FeatureId) (actuals : List TypeId)
    (target ty : TypeId) (args : List TypeId) (outer : Option TypeId) : CheckM TypeId := do
  let newArgs ← substituteListBy substitute owner actuals args
  let newOuter ← outer.mapM (substitute owner actuals)
  let newArgs ← settleArgs substitute ty newArgs
  if newArgs = args ∧ newOuter = outer then return ty
  if newOuter = some .error ∨ .error ∈ newArgs then
    record (.substitutionFailed target)
    return .error
  onTypes (·.rebuild ty newArgs newOuter)

/-- Works a substitution out: first through the parents of `owner`, in the order
of their declaration, and then for `owner` itself. -/
def substituteStep (substitute : Substituter) : Substituter := fun owner actuals target => do
  let declared ← feature owner
  record (.substituting target declared.qualifiedName)
  let ty ← declared.parents.foldlM
    (fun ty parent => substitute parent.ancestor parent.actuals ty) target
  match ← node ty with
  | .formal id boxed => substituteFormal owner actuals ty id boxed
  | .applied _ args outer _ _ => substituteParts substitute owner actuals target ty args outer
  | _ => return ty

/-! ## Remembered results -/

/-- What `known` gives, or else the result of `compute`, which is then handed to
`remember`. -/
def memoized (known : CheckM (Option TypeId)) (remember : TypeId → CheckM Unit)
    (compute : CheckM TypeId) : CheckM TypeId := do
  if !(← get).options.memoize then return ← compute
  match ← known with
  | some result => return result
  | none =>
    let result ← compute
    remember result
    return result

/-- The result remembered for a substitution through a feature. -/
def recallByOwner (key : SubstitutionKey) : CheckM (Option TypeId) :=
  modifyGet fun checker =>
    let (remembered, byOwner) := checker.byOwner.consult key
    (remembered, { checker with byOwner })

/-- Remembers the result of a substitution through a feature. -/
def rememberByOwner (key : SubstitutionKey) (result : TypeId) : CheckM Unit :=
  modify fun checker => { checker with byOwner := checker.byOwner.remember key result }

/-- The result remembered for a substitution through a type. -/
def recallViaType (key : ViewKey) : CheckM (Option TypeId) :=
  modifyGet fun checker =>
    let (remembered, viaType) := checker.viaType.consult key
    (remembered, { checker with viaType })

/-- Remembers the result of a substitution through a type. -/
def rememberViaType (key : ViewKey) (result : TypeId) : CheckM Unit :=
  modify fun checker => { checker with viaType := checker.viaType.remember key result }

/-! ## Substitution through a feature -/

/-- `substitute` with calls nested at most `depth` deep. -/
def substituteWithin : (depth : Nat) → Substituter
  | 0, _, _, _ => throw .depthExceeded
  | depth + 1, owner, actuals, target => do
    expect .actualsMatch (← actualsMatch owner actuals)
    if !(← readTypes (·.mentionsFormal target)) then return target
    let key : SubstitutionKey := ⟨target, owner, actuals⟩
    memoized (recallByOwner key) (rememberByOwner key) <|
      substituteStep (substituteWithin depth) owner actuals target

/-- Replaces the formals of `owner` and of its ancestors in `target`, given
`actuals` for the formals of `owner`. -/
def substitute : Substituter := fun owner actuals target =>
  withinLimit fun depth => substituteWithin depth owner actuals target

/-- Substitutes in a list, with calls nested at most `depth` deep. -/
def substituteListWithin (depth : Nat) (owner : FeatureId) (actuals list : List TypeId) :
    CheckM (List TypeId) :=
  substituteListBy (substituteWithin depth) owner actuals list

/-- The types in `list`, which are given in terms of the formals of the feature
of `ty`, for the arguments of `ty`. -/
def replaceFormals (ty : TypeId) (list : List TypeId) : CheckM (List TypeId) := do
  match ← node ty with
  | .applied id args _ _ _ => withinLimit fun depth => substituteListWithin depth id args list
  | _ =>
    expect .featurePresent false
    return list

/-! ## Substitution through a type -/

/-- Works out how `target` is seen from `source`, given how formals are
substituted and how `target` is seen from the types that `source` leads to. -/
def viewStep (substitute : Substituter) (view : (source target : TypeId) → CheckM TypeId)
    (source target : TypeId) : CheckM TypeId := do
  match ← node source with
  | .formal id _ =>
    match ← constraint? id with
    | none => return target
    | some constraint =>
      if constraint = source then return target
      view constraint target
  | .applied id args outer _ _ =>
    let result ← substitute id args target
    match outer with
    | none => return result
    | some outer => view outer result
  | .error => return .error
  | _ => return target

/-- `substituteVia` with calls nested at most `depth` deep. -/
def substituteViaWithin : (depth : Nat) → (source target : TypeId) → CheckM TypeId
  | 0, _, _ => throw .depthExceeded
  | depth + 1, source, target => do
    if !(← readTypes (·.mentionsFormal target)) then return target
    let key : ViewKey := ⟨source, target⟩
    memoized (recallViaType key) (rememberViaType key) <|
      viewStep (substituteWithin depth) (substituteViaWithin depth) source target

/-- The type `target` as seen from `source`: with the formals of the feature of
`source`, and of the outer types of `source`, replaced.  A formal is seen
through its constraint. -/
def substituteVia (source target : TypeId) : CheckM TypeId :=
  withinLimit fun depth => substituteViaWithin depth source target

end FeatureTypes.Checker

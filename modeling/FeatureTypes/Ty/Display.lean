import FeatureTypes.Feature.Table

/-!
# Displayed types

Types as they are shown to people: a formal by its qualified name, an applied
feature by its name behind its outer type and before its arguments.  An outer
type or an argument of several words is put in parentheses.  Only a type whose
kind differs from the declared kind of its feature says `ref` or `value`.

A type that applies an unknown feature cannot be shown.  The parts of a type are
only looked into once its own feature is known, and one after the other, so that
the first unknown feature ends the work.
-/

namespace FeatureTypes

/-- A text, and whether it has a blank in it. -/
structure Phrase where
  text : String
  isSpaced : Bool

namespace Phrase

/-- The phrase without any text. -/
def empty : Phrase :=
  ⟨"", false⟩

/-- The phrase with the given text. -/
def ofString (text : String) : Phrase :=
  ⟨text, text.toList.contains ' '⟩

/-- Two phrases in a row. -/
def append (phrase other : Phrase) : Phrase :=
  ⟨phrase.text ++ other.text, phrase.isSpaced || other.isSpaced⟩

instance : Append Phrase := ⟨append⟩

/-- Puts a phrase of several words in parentheses. -/
def parenthesize (phrase : Phrase) : Phrase :=
  if phrase.isSpaced then ⟨"(" ++ phrase.text ++ ")", true⟩ else phrase

end Phrase

/-- The phrase that shows a formal. -/
def FeatureTable.formalPhrase (table : FeatureTable) (id : FormalId) (boxed : Bool) :
    Except Failure Phrase := do
  let feature ← table.get id.feature
  let qualifier := if feature.isUniverse then "" else feature.qualifiedName ++ "."
  let name ← table.formalName id
  return .ofString (qualifier ++ name) ++ (if boxed then ⟨" (boxed)", true⟩ else .empty)

namespace TypeStore

/-- How the parts of a type are shown. -/
abbrev Depiction : Type :=
  (ty : TypeId) → Except Failure Phrase

/-- The phrase that shows the outer type, ending in a dot. -/
def outerPhrase (depict : Depiction) : (outer : Option TypeId) → Except Failure Phrase
  | none => .ok .empty
  | some ty => do
    let outer ← depict ty
    return outer.parenthesize ++ ⟨".", false⟩

/-- The phrase that shows the arguments, each behind a blank. -/
def argsPhrase (depict : Depiction) : (args : List TypeId) → Except Failure Phrase
  | [] => .ok .empty
  | ty :: rest => do
    let first ← depict ty
    let others ← argsPhrase depict rest
    return ⟨" ", true⟩ ++ first.parenthesize ++ others

/-- The phrase that shows a type of at most `depth` layers. -/
def phraseWithin (store : TypeStore) (table : FeatureTable) : (depth : Nat) → Depiction
  | 0, _ => .error .depthExceeded
  | depth + 1, ty =>
    match store.node ty with
    | .error => .ok ⟨"<error>", false⟩
    | .void => .ok ⟨"void", false⟩
    | .undefined => .ok ⟨"<undefined>", false⟩
    | .formal id boxed => table.formalPhrase id boxed
    | .applied feature args outer isRef isThis => do
      let declared ← table.get feature
      let qualifier ← outerPhrase (store.phraseWithin table depth) outer
      let kind := if isRef = declared.isRef then "" else if isRef then "ref " else "value "
      let name := declared.name ++ (if isThis then ".this.type" else "")
      let arguments ← argsPhrase (store.phraseWithin table depth) args
      return qualifier ++ .ofString (kind ++ name) ++ arguments

/-- The text that shows a type.  The parts of a type have smaller numbers than
the type itself, so it has at most `ty.index + 1` layers. -/
def display (store : TypeStore) (table : FeatureTable) (ty : TypeId) : Except Failure String :=
  return (← store.phraseWithin table (ty.index + 1) ty).text

end TypeStore

end FeatureTypes

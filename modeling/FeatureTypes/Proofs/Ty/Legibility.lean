import FeatureTypes.Proofs.Checker.Upkeep
import FeatureTypes.Proofs.Meaning.Basic
import FeatureTypes.Proofs.Ty.Display

/-!
# Displayed types can be read back

A displayed type begins with a stretch that no blank outside of parentheses divides.  Its
last word, behind the last dot, tells what kind of type follows.  What is left of the text
then falls apart in one way only.
-/

namespace FeatureTypes

variable {declared declared' : Feature} {feature' : FeatureId}

/-! ## Stretches of text -/

namespace Legibility

/-- The number of open parentheses behind a character. -/
def deepen (depth : Nat) (char : Char) : Nat :=
  if char = '(' then depth + 1 else if char = ')' then depth - 1 else depth

/-- The text up to the first blank outside of parentheses, and the rest from that blank on. -/
def cut : (depth : Nat) → List Char → List Char × List Char
  | _, [] => ([], [])
  | depth, char :: rest =>
    if char = ' ' ∧ depth = 0 then ([], char :: rest)
    else (char :: (cut (deepen depth char) rest).1, (cut (deepen depth char) rest).2)

/-- No blank divides the text, and its parentheses are balanced. -/
def Solid (text : List Char) : Prop :=
  ∀ depth rest, cut depth (text ++ rest) = (text ++ (cut depth rest).1, (cut depth rest).2)

/-- Inside of parentheses no blank divides the text, and its parentheses are balanced. -/
def Level (text : List Char) : Prop :=
  ∀ depth rest, cut (depth + 1) (text ++ rest) =
    (text ++ (cut (depth + 1) rest).1, (cut (depth + 1) rest).2)

variable {text text' : List Char}

theorem Solid.level (solid : Solid text) : Level text :=
  fun depth rest => solid (depth + 1) rest

theorem Solid.append (first : Solid text) (second : Solid text') : Solid (text ++ text') := by
  intro depth rest
  simp only [List.append_assoc, first depth, second depth]

theorem Level.append (first : Level text) (second : Level text') : Level (text ++ text') := by
  intro depth rest
  simp only [List.append_assoc, first depth, second depth]

theorem level_blank : Level [' '] := by
  intro depth rest
  simp [cut, deepen]

/-- There are neither blanks nor parentheses in the text. -/
def Plain (text : List Char) : Prop :=
  ∀ char ∈ text, char ≠ ' ' ∧ char ≠ '(' ∧ char ≠ ')'

-- There are so many characters that to try them all is out of the question.
instance : DecidablePred Plain :=
  fun text => List.decidableBAll _ text

theorem Plain.append (plain : Plain text) (plain' : Plain text') : Plain (text ++ text') := by
  intro char member
  rcases List.mem_append.mp member with first | second
  · exact plain char first
  · exact plain' char second

theorem Plain.solid (plain : Plain text) : Solid text := by
  induction text with
  | nil => exact fun _ _ => rfl
  | cons char text ih =>
    obtain ⟨⟨notBlank, notOpen, notClose⟩, plain⟩ := List.forall_mem_cons.mp plain
    intro depth rest
    simp [cut, deepen, notBlank, notOpen, notClose, ih plain depth rest]

theorem Level.parenthesized (level : Level text) : Solid ('(' :: (text ++ [')'])) := by
  intro depth rest
  have inside := level depth (')' :: rest)
  simp [cut, deepen] at inside ⊢
  simp [inside]

/-- The text in parentheses if it has a blank in it. -/
def enclose (text : List Char) : List Char :=
  if ' ' ∈ text then '(' :: (text ++ [')']) else text

/-- The text is level, and plain where there is no blank in it. -/
def Readable (text : List Char) : Prop :=
  Level text ∧ (' ' ∉ text → Plain text)

theorem Plain.readable (plain : Plain text) : Readable text :=
  ⟨plain.solid.level, fun _ => plain⟩

theorem readable_blank : Readable [' '] :=
  ⟨level_blank, fun noBlank => absurd (List.mem_singleton_self _) noBlank⟩

theorem Readable.append (first : Readable text) (second : Readable text') :
    Readable (text ++ text') := by
  refine ⟨first.1.append second.1, fun noBlank => ?_⟩
  rw [List.mem_append, not_or] at noBlank
  exact (first.2 noBlank.1).append (second.2 noBlank.2)

theorem Readable.solid_enclose (readable : Readable text) : Solid (enclose text) := by
  unfold enclose
  split
  · exact readable.1.parenthesized
  next noBlank => exact (readable.2 noBlank).solid

theorem Readable.enclose (readable : Readable text) : Readable (enclose text) := by
  refine ⟨readable.solid_enclose.level, fun noBlank => ?_⟩
  unfold Legibility.enclose at noBlank ⊢
  split
  next blank => exact absurd (by simp [blank]) noBlank
  next noBlank => exact readable.2 noBlank

theorem enclose_injective (same : enclose text = enclose text') : text = text' := by
  unfold enclose at same
  split at same <;> split at same
  · simpa using same
  next blank noBlank => exact absurd (same ▸ by simp [blank]) noBlank
  next noBlank blank => exact absurd (same ▸ by simp [blank]) noBlank
  · exact same

/-- A text that is empty or begins with a blank. -/
def Behind (text : List Char) : Prop :=
  text = [] ∨ ∃ rest, text = ' ' :: rest

theorem cut_eq (solid : Solid text) (behind : Behind text') :
    cut 0 (text ++ text') = (text, text') := by
  rw [solid 0]
  rcases behind with rfl | ⟨rest, rfl⟩ <;> simp [cut]

theorem append_inj_of_solid {rest rest' : List Char} (solid : Solid text) (solid' : Solid text')
    (behind : Behind rest) (behind' : Behind rest') (same : text ++ rest = text' ++ rest') :
    text = text' ∧ rest = rest' := by
  have cuts := congrArg (cut 0) same
  rw [cut_eq solid behind, cut_eq solid' behind'] at cuts
  exact Prod.mk.inj cuts

/-- A text that is empty or ends with a dot. -/
def Before (text : List Char) : Prop :=
  text = [] ∨ ∃ body, text = body ++ ['.']

theorem eq_nil_of_before {front added : List Char} (before : Before (front ++ added))
    (dotless : '.' ∉ added) : added = [] := by
  rcases List.eq_nil_or_concat added with rfl | ⟨body, last, rfl⟩
  · rfl
  · rcases before with empty | ⟨body', ends⟩
    · simp at empty
    · rw [List.concat_eq_append, ← List.append_assoc] at ends
      obtain rfl := List.singleton_inj.mp (List.append_inj' ends rfl).2
      simp at dotless

theorem append_inj_of_before {word word' : List Char} (before : Before text)
    (before' : Before text') (dotless : '.' ∉ word) (dotless' : '.' ∉ word')
    (same : text ++ word = text' ++ word') : text = text' ∧ word = word' := by
  rcases List.append_eq_append_iff.mp same with ⟨added, rfl, rfl⟩ | ⟨added, rfl, rfl⟩
  · obtain rfl := eq_nil_of_before before' fun dot => dotless (List.mem_append_left _ dot)
    simp
  · obtain rfl := eq_nil_of_before before fun dot => dotless' (List.mem_append_left _ dot)
    simp

end Legibility

/-! ## Names -/

/-- A name without any character that stands between names in a displayed type, other than the
words that are displayed for something else. -/
def IsWord (name : String) : Prop :=
  name ≠ "" ∧ (∀ char ∈ name.toList, char ∉ [' ', '.', '(', ')', '<', '>']) ∧
    name ∉ ["ref", "value", "void", "this", "type"]

instance (name : String) : Decidable (IsWord name) :=
  haveI : Decidable (∀ char ∈ name.toList, char ∉ [' ', '.', '(', ')', '<', '>']) :=
    List.decidableBAll _ _
  inferInstanceAs (Decidable (_ ∧ _ ∧ _))

/-- All names are words, and they tell apart the features, the formals of a feature, and the
formals from the features in it.  There are no companions, since their names have a dot in
them. -/
structure FeatureTable.Legible (table : FeatureTable) : Prop where
  feature_word : ∀ id declared, table.get id = .ok declared → IsWord declared.name
  formal_word : ∀ id declared, table.get id = .ok declared →
    ∀ formal ∈ declared.formals, IsWord formal.name
  qualifiedName_injective : ∀ id declared, table.get id = .ok declared →
    ∀ id' declared', table.get id' = .ok declared' →
      declared.qualifiedName = declared'.qualifiedName → id = id'
  formals_distinct : ∀ id declared, table.get id = .ok declared →
    (declared.formals.map Formal.name).Nodup
  formals_apart : ∀ id declared, table.get id = .ok declared → ∀ formal ∈ declared.formals,
    ∀ inner inside, table.get inner = .ok inside → inside.outer = some id →
      formal.name ≠ inside.name
  universe_bare : ∀ declared, table.get .universe = .ok declared → declared.formals = []

/-- A formal is declared, and an applied feature is seen inside a type of the feature around it,
but by itself just if it is the universe or right inside of it. -/
def FeatureTable.LaysOutAt (table : FeatureTable) : Ty → Prop
  | .formal id _ => ∃ formal, table.formal? id = .ok (some formal)
  | .applied feature _ outer _ _ => ∃ declared, table.get feature = .ok declared ∧
    (outer = none ↔ declared.inUniverse) ∧ ∀ around, outer = some around →
      ∃ id, declared.outer = some id ∧ around.appliedFeature? = some id
  | _ => True

instance (table : FeatureTable) : DecidablePred table.LaysOutAt
  | .formal id _ =>
    match found : table.formal? id with
    | .ok (some formal) => .isTrue ⟨formal, found⟩
    | .ok none => .isFalse fun ⟨_, declares⟩ => nomatch found.symm.trans declares
    | .error _ => .isFalse fun ⟨_, declares⟩ => nomatch found.symm.trans declares
  | .applied feature _ outer _ _ =>
    match found : table.get feature with
    | .ok declared => decidable_of_iff ((outer = none ↔ declared.inUniverse) ∧
        ∀ around ∈ outer, around.appliedFeature?.isSome ∧ declared.outer = around.appliedFeature?)
        ⟨fun ⟨alone, inside⟩ => ⟨declared, found, alone, fun around present =>
          have ⟨applies, isOuter⟩ := inside around present
          have ⟨id, applies⟩ := Option.isSome_iff_exists.mp applies
          ⟨id, isOuter.trans applies, applies⟩⟩,
        fun ⟨_, sameFound, alone, inside⟩ => Except.ok.inj (sameFound.symm.trans found) ▸
          ⟨alone, fun around present =>
            have ⟨_, isOuter, applies⟩ := inside around present
            ⟨Option.isSome_of_eq_some applies, isOuter.trans applies.symm⟩⟩⟩
    | .error _ => .isFalse fun ⟨_, declares, _⟩ => nomatch found.symm.trans declares
  | .error | .void | .undefined => .isTrue trivial

/-- All parts of the type are laid out as they are declared. -/
def FeatureTable.LaysOut (table : FeatureTable) (ty : Ty) : Prop :=
  ∀ part ∈ ty.parts, table.LaysOutAt part

instance (table : FeatureTable) : DecidablePred table.LaysOut :=
  fun ty => inferInstanceAs (Decidable (∀ part ∈ ty.parts, _))

/-! ## Texts of types -/

open Legibility

/-- The word for a type that is held otherwise than its feature declares. -/
def kindWord (isRef : Bool) : List Char :=
  if isRef then ['r', 'e', 'f'] else ['v', 'a', 'l', 'u', 'e']

/-- What follows the name of a feature for the type of an enclosing instance. -/
def thisMark (isThis : Bool) : List Char :=
  if isThis then ['.', 't', 'h', 'i', 's', '.', 't', 'y', 'p', 'e'] else []

/-- What follows the name of a formal that is held through a reference. -/
def boxedMark (boxed : Bool) : List Char :=
  if boxed then [' ', '(', 'b', 'o', 'x', 'e', 'd', ')'] else []

/-- The name of a feature in a displayed type, with its kind if it is not the declared one. -/
def Feature.letters (declared : Feature) (isRef isThis : Bool) : List Char :=
  (if isRef = declared.isRef then [] else kindWord isRef ++ [' ']) ++ declared.name.toList ++
    thisMark isThis

/-- The name of a formal behind the name of its feature. -/
def FeatureTable.formalLetters (table : FeatureTable) (id : FormalId) : List Char :=
  ((table.get id.feature).toOption.elim [] fun declared =>
    declared.qualifiedName.toList ++ '.' ::
      declared.formals[id.index]?.elim [] (·.name.toList))

namespace Ty

mutual

/-- The characters that show a type. -/
def letters (table : FeatureTable) : Ty → List Char
  | .error => ['<', 'e', 'r', 'r', 'o', 'r', '>']
  | .void => ['v', 'o', 'i', 'd']
  | .undefined => ['<', 'u', 'n', 'd', 'e', 'f', 'i', 'n', 'e', 'd', '>']
  | .formal id boxed => table.formalLetters id ++ boxedMark boxed
  | .applied feature args outer isRef isThis =>
    outerLetters table outer ++
      (table.get feature).toOption.elim [] (·.letters isRef isThis) ++ argsLetters table args

/-- The characters that show the outer type, with the dot behind it. -/
def outerLetters (table : FeatureTable) : Option Ty → List Char
  | none => []
  | some ty => enclose (letters table ty) ++ ['.']

/-- The characters that show the arguments. -/
def argsLetters (table : FeatureTable) : List Ty → List Char
  | [] => []
  | ty :: rest => ' ' :: enclose (letters table ty) ++ argsLetters table rest

end

end Ty

/-- The phrase has the given characters. -/
def Phrase.Spells (phrase : Phrase) (letters : List Char) : Prop :=
  phrase.text.toList = letters ∧ phrase.isSpaced = decide (' ' ∈ letters)

namespace Phrase.Spells

variable {phrase phrase' : Phrase} {letters letters' : List Char}

theorem append (spells : phrase.Spells letters) (spells' : phrase'.Spells letters') :
    (phrase ++ phrase').Spells (letters ++ letters') := by
  refine ⟨?_, ?_⟩
  · rw [← spells.1, ← spells'.1]
    exact String.toList_append
  · simp only [List.mem_append, Bool.decide_or, ← spells.2, ← spells'.2]
    rfl

theorem parenthesize (spells : phrase.Spells letters) :
    phrase.parenthesize.Spells (enclose letters) := by
  unfold Phrase.parenthesize enclose
  rw [spells.2]
  by_cases blank : ' ' ∈ letters
  · simp [blank, Spells, String.toList_append, spells.1]
  · simp [blank, spells.1, Spells, spells.2]

theorem ofString (text : String) : (Phrase.ofString text).Spells text.toList :=
  ⟨rfl, by simp [Phrase.ofString]⟩

theorem unspaced (text : String) (noBlank : ' ' ∉ text.toList) :
    (⟨text, false⟩ : Phrase).Spells text.toList :=
  ⟨rfl, by simp [noBlank]⟩

end Phrase.Spells

section

variable {table : FeatureTable} {ty : Ty} {feature : FeatureId} {args : List Ty}
  {outer : Option Ty} {isRef isThis : Bool}

theorem FeatureTable.LaysOut.child (laysOut : table.LaysOut ty) {child : Ty}
    (member : child ∈ ty.children) : table.LaysOut child :=
  fun part occurs => laysOut part (Ty.mem_parts_of_mem_children member occurs)

theorem FeatureTable.LaysOut.arg
    (laysOut : table.LaysOut (.applied feature args outer isRef isThis)) {arg : Ty}
    (member : arg ∈ args) : table.LaysOut arg :=
  laysOut.child (List.mem_append_left _ member)

theorem FeatureTable.LaysOut.around
    (laysOut : table.LaysOut (.applied feature args outer isRef isThis)) {around : Ty}
    (present : outer = some around) : table.LaysOut around :=
  laysOut.child (List.mem_append_right _ (Option.mem_toList.mpr present))

theorem exists_of_formal? {id : FormalId} {formal : Formal}
    (declares : table.formal? id = .ok (some formal)) :
    ∃ declared, table.get id.feature = .ok declared ∧
      declared.formals[id.index]? = some formal := by
  obtain ⟨declared, found, present⟩ := except_bind_eq_ok declares
  exact ⟨declared, found, Except.ok.inj present⟩

theorem formalPhrase_spells (seated : table.Seated) (legible : table.Legible) {id : FormalId}
    (laysOut : table.LaysOutAt (.formal id boxed)) :
    ∃ phrase, table.formalPhrase id boxed = .ok phrase ∧
      phrase.Spells (table.formalLetters id ++ boxedMark boxed) := by
  obtain ⟨formal, declares⟩ := laysOut
  obtain ⟨declared, found, present⟩ := exists_of_formal? declares
  have notUniverse : declared.isUniverse = false := by
    rw [Feature.isUniverse, Option.isNone_eq_false_iff, Option.isSome_iff_ne_none]
    intro outermost
    have isUniverse := (seated.outer_eq_none_iff _ declared found).mp outermost
    rw [legible.universe_bare declared (isUniverse ▸ found)] at present
    cases present
  have named := FeatureTable.formalName_eq_of_get found present
  refine ⟨.ofString (declared.qualifiedName ++ "." ++ formal.name) ++
    (if boxed then ⟨" (boxed)", true⟩ else .empty), ?_, ?_⟩
  · simp [FeatureTable.formalPhrase, found, named, notUniverse, bind, Except.bind, pure,
      Except.pure]
  · have lettersEq : table.formalLetters id =
        (declared.qualifiedName ++ "." ++ formal.name).toList := by
      simp [FeatureTable.formalLetters, found, present, Except.toOption]
    rw [lettersEq]
    refine (Phrase.Spells.ofString _).append ?_
    cases boxed with
    | true => exact ⟨rfl, by decide⟩
    | false => exact ⟨rfl, rfl⟩

theorem exists_phrase (seated : table.Seated) (legible : table.Legible)
    (laysOut : table.LaysOut ty) :
    ∃ phrase, ty.phrase table = .ok phrase ∧ phrase.Spells (ty.letters table) := by
  induction ty using Ty.inductionOn with
  | error => exact ⟨⟨"<error>", false⟩, by rw [Ty.phrase], .unspaced "<error>" (by decide)⟩
  | void => exact ⟨⟨"void", false⟩, by rw [Ty.phrase], .unspaced "void" (by decide)⟩
  | undefined =>
    exact ⟨⟨"<undefined>", false⟩, by rw [Ty.phrase], .unspaced "<undefined>" (by decide)⟩
  | formal id boxed => exact formalPhrase_spells seated legible (laysOut _ (Ty.self_mem_parts _))
  | applied feature args outer isRef isThis argsSpell outerSpells =>
    obtain ⟨declared, found, _⟩ := laysOut _ (Ty.self_mem_parts _)
    have argsPhrase : ∃ phrase, Ty.argsPhrase table args = .ok phrase ∧
        phrase.Spells (Ty.argsLetters table args) := by
      have laid := fun arg (member : arg ∈ args) => argsSpell arg member (laysOut.arg member)
      clear argsSpell laysOut
      induction args with
      | nil => exact ⟨_, rfl, rfl, rfl⟩
      | cons arg rest ih =>
        rw [List.forall_mem_cons] at laid
        obtain ⟨first, firstEq, firstSpells⟩ := laid.1
        obtain ⟨others, othersEq, othersSpell⟩ := ih laid.2
        refine ⟨⟨" ", true⟩ ++ first.parenthesize ++ others, ?_, ?_⟩
        · simp only [Ty.argsPhrase, firstEq, othersEq]
          rfl
        · exact (Phrase.Spells.append ⟨rfl, by decide⟩ firstSpells.parenthesize).append othersSpell
    have outerPhrase : ∃ phrase, Ty.outerPhrase table outer = .ok phrase ∧
        phrase.Spells (Ty.outerLetters table outer) := by
      cases outer with
      | none => exact ⟨_, rfl, rfl, rfl⟩
      | some around =>
        obtain ⟨phrase, phraseEq, spells⟩ := outerSpells around rfl (laysOut.around rfl)
        refine ⟨phrase.parenthesize ++ ⟨".", false⟩, ?_, ?_⟩
        · simp only [Ty.outerPhrase, phraseEq]
          rfl
        · exact spells.parenthesize.append ⟨rfl, by decide⟩
    obtain ⟨arguments, argumentsEq, argumentsSpell⟩ := argsPhrase
    obtain ⟨qualifier, qualifierEq, qualifierSpells⟩ := outerPhrase
    refine ⟨_, by simp only [Ty.phrase, found, argumentsEq, qualifierEq]; rfl, ?_⟩
    refine (qualifierSpells.append ?_).append argumentsSpell
    rw [found]
    convert Phrase.Spells.ofString _ using 1
    simp only [Except.toOption, Option.elim_some, Feature.letters, String.toList_append,
      apply_ite String.toList, thisMark, kindWord, List.append_assoc]
    split <;> split <;> rfl

/-! ## Plain and level texts -/

theorem IsWord.plain {name : String} (isWord : IsWord name) : Plain name.toList := by
  intro char member
  have := isWord.2.1 char member
  simp only [List.mem_cons, not_or] at this
  exact ⟨this.1, this.2.2.1, this.2.2.2.1⟩

theorem IsWord.dotless {name : String} (isWord : IsWord name) : '.' ∉ name.toList := by
  intro member
  simpa using isWord.2.1 '.' member

section

variable (seated : table.Seated) (legible : table.Legible)

include seated legible

theorem qualifiedName_plain {id : FeatureId} (found : table.get id = .ok declared) :
    Plain declared.qualifiedName.toList := by
  induction index : id.index using Nat.strong_induction_on generalizing id declared with
  | _ _ ih =>
    have namePlain := (legible.feature_word id declared found).plain
    cases isOuter : declared.outer with
    | none => rwa [seated.outermost_named found isOuter]
    | some outer =>
      obtain ⟨smaller, _, inUniverse, nested⟩ := seated.inside id declared outer found isOuter
      by_cases isUniverse : outer = .universe
      · rwa [inUniverse isUniverse]
      · obtain ⟨around, aroundFound, named⟩ := nested isUniverse
        rw [named, String.toList_append, String.toList_append]
        have dot : Plain ".".toList := by decide
        exact ((ih _ (index ▸ smaller) aroundFound rfl).append dot).append namePlain

theorem letters_readable (laysOut : table.LaysOut ty) : Readable (ty.letters table) := by
  induction ty using Ty.inductionOn with
  | error => exact Plain.readable (by rw [Ty.letters]; decide)
  | void => exact Plain.readable (by rw [Ty.letters]; decide)
  | undefined => exact Plain.readable (by rw [Ty.letters]; decide)
  | formal id boxed =>
    obtain ⟨formal, declares⟩ := laysOut _ (Ty.self_mem_parts _)
    obtain ⟨declared, found, present⟩ := exists_of_formal? declares
    have namePlain := (legible.formal_word _ declared found formal
      (List.mem_of_getElem? present)).plain
    have dot : Plain ['.'] := by decide
    have plain := ((qualifiedName_plain seated legible found).append dot).append namePlain
    have lettersEq : table.formalLetters id =
        declared.qualifiedName.toList ++ ['.'] ++ formal.name.toList := by
      simp [FeatureTable.formalLetters, found, present, Except.toOption]
    rw [Ty.letters, lettersEq]
    refine plain.readable.append ?_
    cases boxed with
    | true =>
      have mark : Plain ['b', 'o', 'x', 'e', 'd'] := by decide
      exact ⟨level_blank.append mark.solid.level.parenthesized.level,
        fun noBlank => absurd List.mem_cons_self noBlank⟩
    | false => exact Plain.readable (by decide)
  | applied feature args outer isRef isThis argsReadable outerReadable =>
    obtain ⟨declared, found, _⟩ := laysOut _ (Ty.self_mem_parts _)
    have namePlain := (legible.feature_word feature declared found).plain
    rw [Ty.letters, found]
    refine (Readable.append ?_ ?_).append ?_
    · cases outer with
      | none => exact Plain.readable (by rw [Ty.outerLetters]; decide)
      | some around =>
        rw [Ty.outerLetters]
        exact (outerReadable around rfl (laysOut.around rfl)).enclose.append
          (Plain.readable (by decide))
    · have kindReadable :
          Readable (if isRef = declared.isRef then [] else kindWord isRef ++ [' ']) := by
        split
        · exact Plain.readable (by decide)
        · exact (Plain.readable (by cases isRef <;> decide)).append readable_blank
      exact (kindReadable.append namePlain.readable).append
        (Plain.readable (by cases isThis <;> decide))
    · have laid := fun arg (member : arg ∈ args) => argsReadable arg member (laysOut.arg member)
      clear argsReadable laysOut
      induction args with
      | nil => exact Plain.readable (by rw [Ty.argsLetters]; decide)
      | cons arg rest ih =>
        rw [List.forall_mem_cons] at laid
        rw [Ty.argsLetters]
        exact (readable_blank.append laid.1.enclose).append (ih laid.2)

/-! ## Parts of a displayed type -/

omit seated legible in
theorem length_letters_lt {child : Ty} (member : child ∈ ty.children) :
    (child.letters table).length < (ty.letters table).length := by
  have enclosed : ∀ text : List Char, text.length ≤ (enclose text).length := by
    intro text
    unfold enclose
    split
    · simp only [List.length_cons, List.length_append]
      omega
    · exact Nat.le_refl _
  have shorter := enclosed (child.letters table)
  cases ty with
  | applied feature args outer isRef isThis =>
    rw [Ty.letters, List.length_append, List.length_append]
    rcases List.mem_append.mp member with isArg | isAround
    · have inArgs : (child.letters table).length < (Ty.argsLetters table args).length := by
        clear member
        induction args with
        | nil => cases isArg
        | cons arg rest ih =>
          rw [Ty.argsLetters, List.length_append, List.length_cons]
          rcases List.mem_cons.mp isArg with rfl | isArg
          · omega
          · have := ih isArg
            omega
      omega
    · rw [Option.mem_toList.mp isAround, Ty.outerLetters, List.length_append,
        List.length_singleton]
      omega
  | _ => cases member

omit seated legible in
theorem argsLetters_behind (args : List Ty) : Behind (Ty.argsLetters table args) := by
  cases args with
  | nil => exact .inl (by rw [Ty.argsLetters])
  | cons arg rest => exact .inr ⟨_, by rw [Ty.argsLetters]; rfl⟩

omit seated legible in
theorem outerLetters_before (outer : Option Ty) : Before (Ty.outerLetters table outer) := by
  cases outer with
  | none => exact .inl (by rw [Ty.outerLetters])
  | some around => exact .inr ⟨_, by rw [Ty.outerLetters]⟩

theorem outerLetters_solid (laid : ∀ around, outer = some around → table.LaysOut around) :
    Solid (Ty.outerLetters table outer) := by
  cases outer with
  | none =>
    rw [Ty.outerLetters]
    exact Plain.solid (by decide)
  | some around =>
    rw [Ty.outerLetters]
    exact (letters_readable seated legible (laid around rfl)).solid_enclose.append
      (Plain.solid (by decide))

omit seated legible in
/-- Equal texts of outer types are texts of the same outer type, if that is so without the
parentheses and the dot. -/
theorem outer_eq_of_letters {outer' : Option Ty}
    (each : ∀ around around', outer = some around → outer' = some around' →
      around.letters table = around'.letters table → around = around')
    (same : Ty.outerLetters table outer = Ty.outerLetters table outer') : outer = outer' := by
  cases outer with
  | none =>
    cases outer' with
    | none => rfl
    | some around' => simp [Ty.outerLetters] at same
  | some around =>
    cases outer' with
    | none => simp [Ty.outerLetters] at same
    | some around' =>
      rw [Ty.outerLetters, Ty.outerLetters, List.append_left_inj] at same
      rw [each around around' rfl rfl (enclose_injective same)]

theorem args_eq_of_letters {args' : List Ty} (laid : ∀ arg ∈ args, table.LaysOut arg)
    (laid' : ∀ arg ∈ args', table.LaysOut arg)
    (each : ∀ arg ∈ args, ∀ arg' ∈ args', arg.letters table = arg'.letters table → arg = arg')
    (same : Ty.argsLetters table args = Ty.argsLetters table args') : args = args' := by
  induction args generalizing args' with
  | nil =>
    cases args' with
    | nil => rfl
    | cons arg' rest' => simp [Ty.argsLetters] at same
  | cons arg rest ih =>
    cases args' with
    | nil => simp [Ty.argsLetters] at same
    | cons arg' rest' =>
      rw [Ty.argsLetters, Ty.argsLetters, List.cons_append, List.cons_append,
        List.cons_inj_right] at same
      rw [List.forall_mem_cons] at laid laid'
      obtain ⟨firstEq, restEq⟩ := append_inj_of_solid
        (letters_readable seated legible laid.1).solid_enclose
        (letters_readable seated legible laid'.1).solid_enclose (argsLetters_behind rest)
        (argsLetters_behind rest') same
      rw [each arg List.mem_cons_self arg' List.mem_cons_self (enclose_injective firstEq),
        ih laid.2 laid'.2 (fun other member other' member' => each other
          (List.mem_cons_of_mem _ member) other' (List.mem_cons_of_mem _ member')) restEq]

/-! ## Features and their names -/

omit legible in
theorem qualifiedName_of_inUniverse {id : FeatureId} (found : table.get id = .ok declared)
    (inUniverse : declared.inUniverse) : declared.qualifiedName = declared.name := by
  rcases inUniverse with outermost | inside
  · exact seated.outermost_named found outermost
  · exact (seated.inside id declared _ found inside).2.2.1 rfl

/-- Features of the same name that are seen inside the same type are the same. -/
theorem feature_eq_of_name {args' : List Ty} {isRef' isThis' : Bool}
    (found : table.get feature = .ok declared) (found' : table.get feature' = .ok declared')
    (laid : table.LaysOutAt (.applied feature args outer isRef isThis))
    (laid' : table.LaysOutAt (.applied feature' args' outer isRef' isThis'))
    (nameEq : declared.name = declared'.name) : feature = feature' := by
  obtain ⟨_, sameFound, outermost, inside⟩ := laid
  obtain rfl := Except.ok.inj (found.symm.trans sameFound)
  obtain ⟨_, sameFound', outermost', inside'⟩ := laid'
  obtain rfl := Except.ok.inj (found'.symm.trans sameFound')
  refine legible.qualifiedName_injective feature _ found feature' _ found' ?_
  cases outer with
  | none =>
    rw [qualifiedName_of_inUniverse seated found (outermost.mp rfl),
      qualifiedName_of_inUniverse seated found' (outermost'.mp rfl), nameEq]
  | some around =>
    obtain ⟨id, isOuter, applies⟩ := inside around rfl
    obtain ⟨id', isOuter', applies'⟩ := inside' around rfl
    obtain rfl := Option.some.inj (applies.symm.trans applies')
    have notUniverse : id ≠ .universe := by
      rintro rfl
      cases outermost.mpr (.inr isOuter)
    obtain ⟨surrounding, surroundingFound, named⟩ :=
      (seated.inside feature _ id found isOuter).2.2.2 notUniverse
    obtain ⟨surrounding', surroundingFound', named'⟩ :=
      (seated.inside feature' _ id found' isOuter').2.2.2 notUniverse
    obtain rfl := Except.ok.inj (surroundingFound.symm.trans surroundingFound')
    rw [named, named', nameEq]

/-- The qualified name of a feature is displayed for one of its types. -/
theorem exists_laysOut_qualifiedName {id : FeatureId} (found : table.get id = .ok declared) :
    ∃ ty, table.LaysOut ty ∧ ty.appliedFeature? = some id ∧
      ty.letters table = declared.qualifiedName.toList := by
  induction index : id.index using Nat.strong_induction_on generalizing id declared with
  | _ _ ih =>
    by_cases inUniverse : declared.inUniverse
    · refine ⟨.applied id [] none declared.isRef false, ?_, rfl, ?_⟩
      · intro part occurs
        obtain rfl : part = .applied id [] none declared.isRef false := by
          simpa [Ty.mem_parts_applied] using occurs
        exact ⟨declared, found, by simp [inUniverse], by simp⟩
      · simp [Ty.letters, Ty.outerLetters, Ty.argsLetters, found, Except.toOption, Feature.letters,
          thisMark, qualifiedName_of_inUniverse seated found inUniverse]
    · obtain ⟨outer, isOuter⟩ := Option.ne_none_iff_exists'.mp fun outermost =>
        inUniverse (.inl outermost)
      have notUniverse : outer ≠ .universe := by
        rintro rfl
        exact inUniverse (.inr isOuter)
      obtain ⟨smaller, _, _, nested⟩ := seated.inside id declared outer found isOuter
      obtain ⟨around, aroundFound, named⟩ := nested notUniverse
      obtain ⟨ty, laysOut, applies, lettersEq⟩ := ih _ (index ▸ smaller) aroundFound rfl
      have noBlank : ' ' ∉ around.qualifiedName.toList :=
        fun blank => (qualifiedName_plain seated legible aroundFound _ blank).1 rfl
      refine ⟨.applied id [] (some ty) declared.isRef false, ?_, rfl, ?_⟩
      · intro part occurs
        rcases Ty.mem_parts_applied.mp occurs with rfl | ⟨_, isArg, _⟩ | ⟨_, present, occurs⟩
        · exact ⟨declared, found, by simp [inUniverse], fun _ present =>
            ⟨outer, isOuter, Option.some.inj present ▸ applies⟩⟩
        · cases isArg
        · obtain rfl := Option.some.inj present
          exact laysOut part occurs
      · simp [Ty.letters, Ty.outerLetters, Ty.argsLetters, found, Except.toOption, Feature.letters,
          thisMark, enclose, noBlank, lettersEq, named]

/-! ## The first stretch -/

end

/-- What the last word in the first stretch of a displayed type stands for. -/
inductive WordKind where
  | bare
  | name
  | this
  | held

/-- What a word stands for as the last word in the first stretch of a displayed type. -/
def WordKind.of (word : List Char) : WordKind :=
  if word ∈ [Ty.error.letters .initial, Ty.void.letters .initial, Ty.undefined.letters .initial]
    then .bare
  else if word = ['t', 'y', 'p', 'e'] then .this
  else if word = kindWord true ∨ word = kindWord false then .held
  else .name

theorem IsWord.wordKind {name : String} (isWord : IsWord name) :
    WordKind.of name.toList = .name := by
  have other : ∀ text, text ∈ ["ref", "value", "void", "this", "type"] →
      name.toList ≠ text.toList := by
    intro text reserved same
    rw [String.toList_inj.mp same] at isWord
    exact isWord.2.2 reserved
  have unmarked : ∀ text, '<' ∈ text → name.toList ≠ text := by
    rintro text marked rfl
    simpa using isWord.2.1 '<' marked
  have notBare : name.toList ∉ [Ty.error.letters .initial, Ty.void.letters .initial,
      Ty.undefined.letters .initial] := by
    simp only [Ty.letters, List.mem_cons, List.not_mem_nil, or_false, not_or]
    exact ⟨unmarked _ (by decide), other "void" (by decide), unmarked _ (by decide)⟩
  have notThis : name.toList ≠ ['t', 'y', 'p', 'e'] := other "type" (by decide)
  have notKind : ¬ (name.toList = kindWord true ∨ name.toList = kindWord false) :=
    not_or.mpr ⟨other "ref" (by decide), other "value" (by decide)⟩
  rw [WordKind.of, if_neg notBare, if_neg notThis, if_neg notKind]

/-- The text of a type in three parts: what comes before the last word in the first stretch,
that word, and the rest behind a blank. -/
inductive Spelled (table : FeatureTable) :
    Ty → WordKind → (front word rest : List Char) → Prop
  | bare {ty : Ty} (isBare : ty = .error ∨ ty = .void ∨ ty = .undefined) :
      Spelled table ty .bare [] (ty.letters table) []
  | formal {id : FormalId} {boxed : Bool} {declared : Feature} {formal : Formal}
      (found : table.get id.feature = .ok declared)
      (present : declared.formals[id.index]? = some formal) :
      Spelled table (.formal id boxed) .name (declared.qualifiedName.toList ++ ['.'])
        formal.name.toList (boxedMark boxed)
  | plain {feature : FeatureId} {args : List Ty} {outer : Option Ty} {declared : Feature}
      (found : table.get feature = .ok declared) :
      Spelled table (.applied feature args outer declared.isRef false) .name
        (Ty.outerLetters table outer) declared.name.toList (Ty.argsLetters table args)
  | this {feature : FeatureId} {args : List Ty} {outer : Option Ty} {declared : Feature}
      (found : table.get feature = .ok declared) :
      Spelled table (.applied feature args outer declared.isRef true) .this
        (Ty.outerLetters table outer ++ declared.name.toList ++ ['.', 't', 'h', 'i', 's'] ++ ['.'])
        ['t', 'y', 'p', 'e'] (Ty.argsLetters table args)
  | held {feature : FeatureId} {args : List Ty} {outer : Option Ty} {declared : Feature}
      {isRef isThis : Bool} (found : table.get feature = .ok declared)
      (otherwise : isRef ≠ declared.isRef) :
      Spelled table (.applied feature args outer isRef isThis) .held
        (Ty.outerLetters table outer) (kindWord isRef)
        (' ' :: (declared.name.toList ++ thisMark isThis) ++ Ty.argsLetters table args)

/-- The parts of a text can be found in it. -/
structure Divides (front word rest : List Char) : Prop where
  front_before : Before front
  word_dotless : '.' ∉ word
  solid : Solid (front ++ word)
  rest_behind : Behind rest

theorem Divides.inj {front word rest front' word' rest' : List Char}
    (divides : Divides front word rest) (divides' : Divides front' word' rest')
    (same : front ++ word ++ rest = front' ++ word' ++ rest') :
    front = front' ∧ word = word' ∧ rest = rest' := by
  obtain ⟨stretchEq, restEq⟩ :=
    append_inj_of_solid divides.solid divides'.solid divides.rest_behind divides'.rest_behind same
  obtain ⟨frontEq, wordEq⟩ := append_inj_of_before divides.front_before divides'.front_before
    divides.word_dotless divides'.word_dotless stretchEq
  exact ⟨frontEq, wordEq, restEq⟩

section

variable (seated : table.Seated) (legible : table.Legible)

include seated legible

theorem exists_spelled (laysOut : table.LaysOut ty) :
    ∃ kind front word rest, Spelled table ty kind front word rest ∧
      Divides front word rest ∧ WordKind.of word = kind ∧
        ty.letters table = front ++ word ++ rest := by
  cases ty with
  | error =>
    refine ⟨_, _, _, _, .bare (.inl rfl), ⟨.inl rfl, ?_, ?_, .inl rfl⟩, ?_, by simp⟩
    · rw [Ty.letters]; decide
    · exact Plain.solid (by rw [Ty.letters]; decide)
    · simp [WordKind.of, Ty.letters]
  | void =>
    refine ⟨_, _, _, _, .bare (.inr (.inl rfl)), ⟨.inl rfl, ?_, ?_, .inl rfl⟩, ?_, by simp⟩
    · rw [Ty.letters]; decide
    · exact Plain.solid (by rw [Ty.letters]; decide)
    · simp [WordKind.of, Ty.letters]
  | undefined =>
    refine ⟨_, _, _, _, .bare (.inr (.inr rfl)), ⟨.inl rfl, ?_, ?_, .inl rfl⟩, ?_, by simp⟩
    · rw [Ty.letters]; decide
    · exact Plain.solid (by rw [Ty.letters]; decide)
    · simp [WordKind.of, Ty.letters]
  | formal id boxed =>
    obtain ⟨formal, declares⟩ := laysOut _ (Ty.self_mem_parts _)
    obtain ⟨declared, found, present⟩ := exists_of_formal? declares
    have isWord := legible.formal_word _ declared found formal (List.mem_of_getElem? present)
    have dot : Plain ['.'] := by decide
    refine ⟨_, _, _, _, .formal found present, ⟨.inr ⟨_, rfl⟩, isWord.dotless, ?_, ?_⟩,
      isWord.wordKind, ?_⟩
    · exact (((qualifiedName_plain seated legible found).append dot).append isWord.plain).solid
    · cases boxed with
      | true => exact .inr ⟨_, rfl⟩
      | false => exact .inl rfl
    · simp [Ty.letters, FeatureTable.formalLetters, found, present, Except.toOption]
  | applied feature args outer isRef isThis =>
    obtain ⟨declared, found, _⟩ := laysOut _ (Ty.self_mem_parts _)
    have isWord := legible.feature_word feature declared found
    have outerSolid := outerLetters_solid seated legible fun _ => laysOut.around
    have outerBefore : Before (Ty.outerLetters table outer) := outerLetters_before outer
    have argsBehind : Behind (Ty.argsLetters table args) := argsLetters_behind args
    by_cases asDeclared : isRef = declared.isRef
    · subst asDeclared
      cases isThis with
      | false =>
        refine ⟨_, _, _, _, .plain found, ⟨outerBefore, isWord.dotless,
          outerSolid.append isWord.plain.solid, argsBehind⟩, isWord.wordKind, ?_⟩
        simp [Ty.letters, found, Except.toOption, Feature.letters, thisMark]
      | true =>
        have mark : Plain ['.', 't', 'h', 'i', 's'] := by decide
        have dot : Plain ['.'] := by decide
        have word : Plain ['t', 'y', 'p', 'e'] := by decide
        refine ⟨_, _, _, _, .this found, ⟨.inr ⟨_, rfl⟩, by decide,
          (((outerSolid.append isWord.plain.solid).append mark.solid).append dot.solid).append
            word.solid, argsBehind⟩, ?_, ?_⟩
        · simp [WordKind.of, Ty.letters]
        · simp [Ty.letters, found, Except.toOption, Feature.letters, thisMark]
    · have word : Plain (kindWord isRef) := by cases isRef <;> decide
      refine ⟨_, _, _, _, .held found asDeclared, ⟨outerBefore, by cases isRef <;> decide,
        outerSolid.append word.solid, .inr ⟨_, rfl⟩⟩, ?_, ?_⟩
      · cases isRef <;> simp [WordKind.of, Ty.letters, kindWord]
      · simp [Ty.letters, found, Except.toOption, Feature.letters, asDeclared]

/-- No formal is displayed as a feature inside of the feature that declares it. -/
theorem formal_apart_of_letters {id : FormalId} {inside : Feature} {formal : Formal}
    (found : table.get id.feature = .ok declared)
    (present : declared.formals[id.index]? = some formal)
    (insideFound : table.get feature = .ok inside)
    (laysOut : table.LaysOut (.applied feature args outer isRef isThis))
    (each : ∀ around, outer = some around → ∀ ty, table.LaysOut ty →
      around.letters table = ty.letters table → around = ty)
    (frontEq : Ty.outerLetters table outer = declared.qualifiedName.toList ++ ['.']) :
    inside.name ≠ formal.name := by
  obtain ⟨ty, tyLaysOut, applies, lettersEq⟩ := exists_laysOut_qualifiedName seated legible found
  cases outer with
  | none => simp [Ty.outerLetters] at frontEq
  | some around =>
    have unenclosed : enclose (ty.letters table) = declared.qualifiedName.toList := by
      have noBlank : ' ' ∉ declared.qualifiedName.toList :=
        fun blank => (qualifiedName_plain seated legible found _ blank).1 rfl
      rw [lettersEq, enclose, if_neg noBlank]
    rw [Ty.outerLetters, List.append_left_inj, ← unenclosed] at frontEq
    obtain rfl := each around rfl ty tyLaysOut (enclose_injective frontEq)
    obtain ⟨_, sameFound, _, nested⟩ := laysOut _ (Ty.self_mem_parts _)
    obtain rfl := Except.ok.inj (insideFound.symm.trans sameFound)
    obtain ⟨outerId, isOuter, applies'⟩ := nested _ rfl
    obtain rfl := Option.some.inj (applies.symm.trans applies')
    exact (legible.formals_apart _ declared found formal (List.mem_of_getElem? present) _ _
      insideFound isOuter).symm

/-- Applied features are the same if their names, their arguments and their outer types are
displayed alike. -/
theorem applied_eq_of_letters {args' : List Ty} {outer' : Option Ty} {isRef' isThis' : Bool}
    (found : table.get feature = .ok declared) (found' : table.get feature' = .ok declared')
    (laysOut : table.LaysOut (.applied feature args outer isRef isThis))
    (laysOut' : table.LaysOut (.applied feature' args' outer' isRef' isThis'))
    (each : ∀ child ∈ (Ty.applied feature args outer isRef isThis).children, ∀ ty,
      table.LaysOut ty → child.letters table = ty.letters table → child = ty)
    (outerEq : Ty.outerLetters table outer = Ty.outerLetters table outer')
    (nameEq : declared.name.toList = declared'.name.toList)
    (argsEq : Ty.argsLetters table args = Ty.argsLetters table args') :
    feature = feature' ∧ args = args' ∧ outer = outer' := by
  have around : ∀ around, outer = some around →
      around ∈ (Ty.applied feature args outer isRef isThis).children :=
    fun _ present => List.mem_append_right _ (Option.mem_toList.mpr present)
  obtain rfl := outer_eq_of_letters (fun ty ty' present present' =>
    each ty (around ty present) ty' (laysOut'.around present')) outerEq
  have argsSame := args_eq_of_letters seated legible (fun _ member => laysOut.arg member)
    (fun _ member => laysOut'.arg member) (fun arg member arg' member' =>
      each arg (List.mem_append_left _ member) arg' (laysOut'.arg member')) argsEq
  exact ⟨feature_eq_of_name seated legible found found' (laysOut _ (Ty.self_mem_parts _))
    (laysOut' _ (Ty.self_mem_parts _)) (String.toList_inj.mp nameEq), argsSame, rfl⟩

omit seated in
theorem formal_eq_of_letters {id id' : FormalId} {boxed boxed' : Bool} {formal formal' : Formal}
    (found : table.get id.feature = .ok declared) (found' : table.get id'.feature = .ok declared')
    (present : declared.formals[id.index]? = some formal)
    (present' : declared'.formals[id'.index]? = some formal')
    (featureEq : declared.qualifiedName.toList = declared'.qualifiedName.toList)
    (nameEq : formal.name.toList = formal'.name.toList)
    (boxedEq : boxedMark boxed = boxedMark boxed') : Ty.formal id boxed = .formal id' boxed' := by
  obtain ⟨feature, index⟩ := id
  obtain ⟨feature', index'⟩ := id'
  obtain rfl := legible.qualifiedName_injective _ _ found _ _ found'
    (String.toList_inj.mp featureEq)
  obtain rfl := Except.ok.inj (found.symm.trans found')
  have indexEq : index = index' := by
    have named : (declared.formals.map Formal.name)[index]? = some formal.name := by
      rw [List.getElem?_map, present, Option.map_some]
    have named' : (declared.formals.map Formal.name)[index']? = some formal'.name := by
      rw [List.getElem?_map, present', Option.map_some]
    obtain ⟨bound, -⟩ := List.getElem?_eq_some_iff.mp named
    refine (List.getElem?_inj bound (legible.formals_distinct _ _ found)).mp ?_
    rw [named, named', String.toList_inj.mp nameEq]
  have sameBoxed : boxed = boxed' := by
    cases boxed <;> cases boxed' <;> first | rfl | cases boxedEq
  rw [indexEq, sameBoxed]

omit seated legible in
theorem kindWord_injective {isRef' : Bool} (same : kindWord isRef = kindWord isRef') :
    isRef = isRef' := by
  cases isRef <;> cases isRef' <;> first | rfl | cases same

omit seated in
theorem solid_marked (found : table.get feature = .ok declared) (isThis : Bool) :
    Solid (declared.name.toList ++ thisMark isThis) := by
  have mark : Plain (thisMark isThis) := by cases isThis <;> decide
  exact (legible.feature_word _ _ found).plain.solid.append mark.solid

omit seated in
theorem marked_injective {isThis' : Bool} (found : table.get feature = .ok declared)
    (found' : table.get feature' = .ok declared')
    (same : declared.name.toList ++ thisMark isThis = declared'.name.toList ++ thisMark isThis') :
    declared.name.toList = declared'.name.toList ∧ isThis = isThis' := by
  have dotless := (legible.feature_word _ _ found).dotless
  have dotless' := (legible.feature_word _ _ found').dotless
  cases isThis <;> cases isThis'
  · exact ⟨List.append_cancel_right same, rfl⟩
  · rw [thisMark, if_neg Bool.false_ne_true, List.append_nil] at same
    exact absurd (same ▸ List.mem_append_right _ List.mem_cons_self) dotless
  · rw [thisMark, thisMark, if_neg Bool.false_ne_true, List.append_nil] at same
    exact absurd (same ▸ List.mem_append_right _ List.mem_cons_self) dotless'
  · exact ⟨List.append_cancel_right same, rfl⟩

theorem letters_injective {ty' : Ty} (laysOut : table.LaysOut ty) (laysOut' : table.LaysOut ty')
    (same : ty.letters table = ty'.letters table) : ty = ty' := by
  induction size : (ty.letters table).length using Nat.strong_induction_on
    generalizing ty ty' with
  | _ _ ih =>
    have each : ∀ child ∈ ty.children, ∀ other, table.LaysOut other →
        child.letters table = other.letters table → child = other :=
      fun child member other laid alike =>
        ih _ (size ▸ length_letters_lt member) (laysOut.child member) laid alike rfl
    have each' : ∀ child ∈ ty'.children, ∀ other, table.LaysOut other →
        child.letters table = other.letters table → child = other :=
      fun child member other laid alike =>
        ih _ (size ▸ same ▸ length_letters_lt member) (laysOut'.child member) laid alike rfl
    obtain ⟨kind, front, word, rest, spelled, divides, ofWord, lettersEq⟩ :=
      exists_spelled seated legible laysOut
    obtain ⟨kind', front', word', rest', spelled', divides', ofWord', lettersEq'⟩ :=
      exists_spelled seated legible laysOut'
    rw [lettersEq, lettersEq'] at same
    obtain ⟨frontEq, wordEq, restEq⟩ := divides.inj divides' same
    -- The last word says which of the cases go together.
    obtain rfl : kind = kind' := by rw [← ofWord, ← ofWord', wordEq]
    cases spelled with
    | bare isBare =>
      obtain ⟨isBare'⟩ := spelled'
      rcases isBare with rfl | rfl | rfl <;> rcases isBare' with rfl | rfl | rfl <;>
        first | rfl | simp [Ty.letters] at wordEq
    | formal found present =>
      cases spelled' with
      | formal found' present' =>
        exact formal_eq_of_letters legible found found' present present'
          (List.append_cancel_right frontEq) wordEq restEq
      | plain insideFound =>
        exact absurd (String.toList_inj.mp wordEq).symm
          (formal_apart_of_letters seated legible found present insideFound laysOut'
            (fun _ isAround => each' _ (List.mem_append_right _ (Option.mem_toList.mpr isAround)))
            frontEq.symm)
    | plain found =>
      cases spelled' with
      | formal found' present' =>
        exact absurd (String.toList_inj.mp wordEq)
          (formal_apart_of_letters seated legible found' present' found laysOut
            (fun _ isAround => each _ (List.mem_append_right _ (Option.mem_toList.mpr isAround)))
            frontEq)
      | plain found' =>
        obtain ⟨rfl, rfl, rfl⟩ := applied_eq_of_letters seated legible found found' laysOut
          laysOut' each frontEq wordEq restEq
        obtain rfl := Except.ok.inj (found.symm.trans found')
        rfl
    | this found =>
      cases spelled' with
      | this found' =>
        rw [List.append_left_inj, List.append_left_inj] at frontEq
        obtain ⟨outerEq, nameEq⟩ := append_inj_of_before (outerLetters_before _)
          (outerLetters_before _) (legible.feature_word _ _ found).dotless
          (legible.feature_word _ _ found').dotless frontEq
        obtain ⟨rfl, rfl, rfl⟩ := applied_eq_of_letters seated legible found found' laysOut
          laysOut' each outerEq nameEq restEq
        obtain rfl := Except.ok.inj (found.symm.trans found')
        rfl
    | held found otherwise =>
      cases spelled' with
      | held found' otherwise' =>
        obtain rfl := kindWord_injective wordEq
        rw [List.cons_append, List.cons_append, List.cons_inj_right] at restEq
        obtain ⟨markedEq, argsEq⟩ := append_inj_of_solid (solid_marked legible found _)
          (solid_marked legible found' _) (argsLetters_behind _) (argsLetters_behind _) restEq
        obtain ⟨nameEq, rfl⟩ := marked_injective legible found found' markedEq
        obtain ⟨rfl, rfl, rfl⟩ := applied_eq_of_letters seated legible found found' laysOut
          laysOut' each frontEq nameEq argsEq
        rfl

end

end

namespace Checker

variable {checker : Checker}

/-- Types that are laid out as they are declared are displayed, and no two of them alike. -/
theorem display_injective (reachable : Reachable checker) (legible : checker.features.Legible)
    {left right : TypeId} (leftHeld : checker.types.Holds left)
    (rightHeld : checker.types.Holds right)
    (leftLaid : checker.features.LaysOut (checker.types.tree left))
    (rightLaid : checker.features.LaysOut (checker.types.tree right)) :
    (∃ text, checker.types.display checker.features left = .ok text) ∧
      (checker.types.display checker.features left =
        checker.types.display checker.features right → left = right) := by
  have seated := reachable.built.orderly.toSeated
  have coherent := reachable.sound.types_canonical.toCoherent
  obtain ⟨phrase, phraseEq, spells⟩ := exists_phrase seated legible leftLaid
  obtain ⟨phrase', phraseEq', spells'⟩ := exists_phrase seated legible rightLaid
  have shown : checker.types.display checker.features left = .ok phrase.text := by
    rw [TypeStore.display_eq_display coherent leftHeld, Ty.display, phraseEq]
    rfl
  have shown' : checker.types.display checker.features right = .ok phrase'.text := by
    rw [TypeStore.display_eq_display coherent rightHeld, Ty.display, phraseEq']
    rfl
  refine ⟨⟨_, shown⟩, fun same => ?_⟩
  rw [shown, shown', Except.ok.injEq] at same
  refine TypeStore.tree_injective coherent leftHeld rightHeld
    (letters_injective seated legible leftLaid rightLaid ?_)
  rw [← spells.1, ← spells'.1, same]

theorem display_injective_cell :
    let start := afterAll
      [.declare (.feature "any" none true), .construct (.instantiate ⟨1⟩ []),
        .declare (.feature "list" none true), .declare (.formal ⟨2⟩ "T" ⟨3⟩ false {}),
        .construct (.formal ⟨⟨2⟩, 0⟩), .declare (.feature "cell" (some ⟨2⟩) false),
        .construct (.applied ⟨2⟩ [⟨4⟩] none false),
        .construct (.applied ⟨3⟩ [] (some ⟨5⟩) false), .construct (.asThis ⟨6⟩)] {}
    start.Reachable ∧ start.features.Legible ∧
      start.features.LaysOut (start.types.tree ⟨6⟩) ∧
      start.features.LaysOut (start.types.tree ⟨7⟩) ∧
      start.types.display start.features ⟨6⟩ = .ok "(value list list.T).cell" ∧
      start.types.display start.features ⟨7⟩ = .ok "(value list list.T).cell.this.type" ∧
      start.types.display start.features ⟨6⟩ ≠ start.types.display start.features ⟨7⟩ := by
  intro start
  have reachable : start.Reachable := (Reachable.initial {} {}).steps (by decide +kernel)
  have legible : start.features.Legible := by
    constructor
    · exact FeatureTable.forall_declared (by decide +kernel)
    · exact FeatureTable.forall_declared (by decide +kernel)
    · intro id declared found
      refine FeatureTable.forall_declared ?_
      revert id declared
      exact FeatureTable.forall_declared (by decide +kernel)
    · exact FeatureTable.forall_declared (by decide +kernel)
    · intro id declared found formal member
      refine FeatureTable.forall_declared ?_
      revert formal
      revert id declared
      exact FeatureTable.forall_declared (by decide +kernel)
    · intro declared found
      obtain rfl := Except.ok.inj found
      rfl
  have laidCell : start.features.LaysOut (start.types.tree ⟨6⟩) := by decide +kernel
  have laidThis : start.features.LaysOut (start.types.tree ⟨7⟩) := by decide +kernel
  refine ⟨reachable, legible, laidCell, laidThis, by decide +kernel, by decide +kernel, ?_⟩
  intro same
  cases (display_injective reachable legible (by decide +kernel) (by decide +kernel) laidCell
    laidThis).2 same

end Checker

end FeatureTypes

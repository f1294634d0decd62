import Mathlib.Data.Finset.Dedup
import Mathlib.Data.Finset.Card
import FeatureTypes.SymbolTable

/-!
# Runs of a symbol table

The strings of a symbol table and its index are kept apart, yet stay inverse to each other.
-/

namespace FeatureTypes.SymbolTable

variable {table : SymbolTable} {text : String} {symbol : Symbol} {texts : List String}

/-! ## One call -/

/-- The index of the table leads from the strings back to their positions. -/
def Inverse (table : SymbolTable) : Prop :=
  ∀ (text : String) (symbol : Symbol),
    table.index[text]? = some symbol ↔ table.strings[symbol.index]? = some text

theorem resolve_eq_ok_iff :
    table.resolve symbol = .ok text ↔ table.strings[symbol.index]? = some text := by
  rw [resolve]
  cases table.strings[symbol.index]? <;> simp

theorem Inverse.mem_of_known (inverse : table.Inverse) (known : table.index[text]? = some symbol) :
    text ∈ table.strings :=
  Array.mem_of_getElem? ((inverse text symbol).mp known)

theorem Inverse.symbol_unique (inverse : table.Inverse) {other : Symbol}
    (resolved : table.resolve symbol = .ok text) (resolved' : table.resolve other = .ok text) :
    symbol = other := by
  have known := (inverse text symbol).mpr (resolve_eq_ok_iff.mp resolved)
  have known' := (inverse text other).mpr (resolve_eq_ok_iff.mp resolved')
  exact Option.some.inj (known.symm.trans known')

theorem intern_of_known (known : table.index[text]? = some symbol) :
    table.intern text = (symbol, table) := by
  rw [intern, known]

theorem intern_of_new (new : table.index[text]? = none) :
    table.intern text = (⟨table.size⟩,
      ⟨table.strings.push text, table.index.insert text ⟨table.size⟩⟩) := by
  rw [intern, new]

/-- A call keeps the strings and the index inverse. -/
theorem Inverse.intern (inverse : table.Inverse) (text : String) :
    (table.intern text).2.Inverse := by
  cases entry : table.index[text]? with
  | some symbol =>
    rw [intern_of_known entry]
    exact inverse
  | none =>
    rw [intern_of_new entry]
    intro other symbol
    rw [Std.TreeMap.getElem?_insert, Array.getElem?_push]
    by_cases same : text = other
    · obtain rfl := same
      -- The text is new, so that no earlier position holds it.
      have elsewhere : table.strings[symbol.index]? ≠ some text := fun present => by
        rw [(inverse text symbol).mpr present] at entry
        cases entry
      obtain ⟨position⟩ := symbol
      rw [if_pos Std.ReflCmp.compare_self, Option.some.injEq, Symbol.mk.injEq, size]
      split
      next isNew => exact iff_of_true isNew.symm rfl
      next isOld => exact iff_of_false (Ne.symm isOld) elsewhere
    · rw [if_neg (mt Std.LawfulEqOrd.eq_of_compare same), inverse]
      split
      next isNew =>
        rw [isNew, Array.getElem?_eq_none le_rfl]
        simp [same]
      next => rfl

theorem resolve_intern (inverse : table.Inverse) (text : String) :
    (table.intern text).2.resolve (table.intern text).1 = .ok text := by
  rw [resolve_eq_ok_iff]
  cases entry : table.index[text]? with
  | some symbol =>
    rw [intern_of_known entry]
    exact (inverse text symbol).mp entry
  | none =>
    rw [intern_of_new entry]
    exact Array.getElem?_push_size

theorem resolve_intern_of_resolve (resolved : table.resolve symbol = .ok text) (other : String) :
    (table.intern other).2.resolve symbol = .ok text := by
  rw [resolve_eq_ok_iff] at resolved ⊢
  cases entry : table.index[other]? with
  | some symbol =>
    rw [intern_of_known entry]
    exact resolved
  | none =>
    have bound := (Array.getElem?_eq_some_iff.mp resolved).choose
    rw [intern_of_new entry, Array.getElem?_push, if_neg bound.ne, resolved]

theorem mem_strings_intern (inverse : table.Inverse) {other : String} :
    other ∈ (table.intern text).2.strings ↔ other ∈ table.strings ∨ other = text := by
  cases entry : table.index[text]? with
  | some symbol =>
    have member := inverse.mem_of_known entry
    rw [intern_of_known entry, or_iff_left_of_imp]
    rintro rfl
    exact member
  | none =>
    rw [intern_of_new entry]
    exact Array.mem_push

/-! ## Runs -/

/-- The table after the texts were interned in a fresh one, one after the other. -/
def ofTexts (texts : List String) : SymbolTable :=
  texts.foldl (fun table text => (table.intern text).2) {}

/-- The symbol that is returned for `text` after the texts were interned. -/
def symbolAfter (texts : List String) (text : String) : Symbol :=
  ((ofTexts texts).intern text).1

theorem ofTexts_concat (texts : List String) (text : String) :
    ofTexts (texts ++ [text]) = ((ofTexts texts).intern text).2 := by
  rw [ofTexts, List.foldl_append]
  rfl

theorem inverse_ofTexts (texts : List String) : (ofTexts texts).Inverse := by
  induction texts using List.reverseRecOn with
  | nil =>
    intro text symbol
    simp [ofTexts]
  | append_singleton texts text ih =>
    rw [ofTexts_concat]
    exact ih.intern text

theorem mem_strings_ofTexts (texts : List String) :
    text ∈ (ofTexts texts).strings ↔ text ∈ texts := by
  induction texts using List.reverseRecOn with
  | nil => simp [ofTexts]
  | append_singleton texts last ih =>
    rw [ofTexts_concat, mem_strings_intern (inverse_ofTexts texts), ih, List.mem_append,
      List.mem_singleton]

theorem nodup_strings (inverse : table.Inverse) : table.strings.toList.Nodup := by
  rw [List.nodup_iff_injective_get]
  intro first second same
  have resolved : ∀ position : Fin table.strings.toList.length,
      table.resolve ⟨position⟩ = .ok (table.strings.toList.get position) := by
    intro position
    rw [resolve_eq_ok_iff, ← Array.getElem?_toList]
    exact List.getElem?_eq_getElem position.isLt
  have symbolEq := inverse.symbol_unique (resolved first) (same ▸ resolved second)
  exact Fin.ext (Symbol.mk.inj symbolEq)

theorem size_ofTexts (texts : List String) : (ofTexts texts).size = texts.toFinset.card := by
  have sameStrings : (ofTexts texts).strings.toList.toFinset = texts.toFinset := by
    ext text
    rw [List.mem_toFinset, List.mem_toFinset, Array.mem_toList_iff, mem_strings_ofTexts]
  rw [← sameStrings, List.toFinset_card_of_nodup (nodup_strings (inverse_ofTexts texts)), size,
    Array.length_toList]

theorem resolve_ofTexts_append (resolved : (ofTexts texts).resolve symbol = .ok text)
    (more : List String) : (ofTexts (texts ++ more)).resolve symbol = .ok text := by
  induction more using List.reverseRecOn with
  | nil => rwa [List.append_nil]
  | append_singleton more last ih =>
    rw [← List.append_assoc, ofTexts_concat]
    exact resolve_intern_of_resolve ih last

theorem resolve_symbolAfter (earlier later : List String) (text : String) :
    (ofTexts (earlier ++ text :: later)).resolve (symbolAfter earlier text) = .ok text := by
  rw [List.append_cons]
  apply resolve_ofTexts_append
  rw [ofTexts_concat]
  exact resolve_intern (inverse_ofTexts earlier) text

theorem symbolAfter_of_new (new : text ∉ texts) :
    symbolAfter texts text = ⟨texts.toFinset.card⟩ := by
  have noEntry : (ofTexts texts).index[text]? = none := by
    rw [Option.eq_none_iff_forall_ne_some]
    intro symbol known
    exact new ((mem_strings_ofTexts texts).mp ((inverse_ofTexts texts).mem_of_known known))
  rw [symbolAfter, intern_of_new noEntry, size_ofTexts]

/-! ## What runs return -/

/-- The symbol that the call with the text at `position` returns. -/
def symbolAt (texts : List String) (position : Fin texts.length) : Symbol :=
  symbolAfter (texts.take position) texts[position]

theorem resolve_symbolAt (position : Fin texts.length) {calls : Nat} (made : position < calls) :
    (ofTexts (texts.take calls)).resolve (symbolAt texts position) = .ok texts[position] := by
  have split : texts.take calls = texts.take position ++
      texts[position] :: (texts.take calls).drop (position + 1) := by
    have bound : (position : Nat) < (texts.take calls).length := by
      rw [List.length_take]
      exact lt_min made position.isLt
    have initial : texts.take position = (texts.take calls).take position := by
      rw [List.take_take, Nat.min_eq_left made.le]
    rw [Fin.getElem_fin, ← List.getElem_take (h := bound), ← List.drop_eq_getElem_cons, initial,
      List.take_append_drop]
  rw [split]
  exact resolve_symbolAfter _ _ _

theorem symbolAt_eq_iff (first second : Fin texts.length) :
    symbolAt texts first = symbolAt texts second ↔ texts[first] = texts[second] := by
  have resolved (position : Fin texts.length) := resolve_symbolAt position position.isLt
  constructor
  · intro same
    exact Except.ok.inj ((resolved first).symm.trans (same ▸ resolved second))
  · intro same
    exact (inverse_ofTexts _).symbol_unique (resolved first) (same ▸ resolved second)

/-- A symbol counts the different strings before its own. -/
theorem index_symbolAt (position : Fin texts.length) :
    (symbolAt texts position).index =
      (texts.take (texts.idxOf texts[position])).toFinset.card := by
  -- The call with the first occurrence of the text returns the same symbol.
  have member : texts[position] ∈ texts := List.getElem_mem _
  let first : Fin texts.length := ⟨texts.idxOf texts[position], List.idxOf_lt_length_of_mem member⟩
  have same : texts[first] = texts[position] := List.getElem_idxOf _
  have new : texts[first] ∉ texts.take first := by
    rw [same, List.mem_take_iff_idxOf_lt member]
    exact lt_irrefl _
  rw [← (symbolAt_eq_iff first position).mpr same, symbolAt, symbolAfter_of_new new]

theorem exists_symbolAt {calls number : Nat} (small : number < (ofTexts (texts.take calls)).size) :
    ∃ position : Fin texts.length, position < calls ∧ (symbolAt texts position).index = number := by
  have resolved : (ofTexts (texts.take calls)).resolve ⟨number⟩ = .ok _ :=
    resolve_eq_ok_iff.mpr (Array.getElem?_eq_getElem small)
  have member := (mem_strings_ofTexts (texts.take calls)).mp (Array.getElem_mem small)
  obtain ⟨place, bound, isText⟩ := List.mem_take_iff_getElem.mp member
  rw [lt_min_iff] at bound
  refine ⟨⟨place, bound.2⟩, bound.1, ?_⟩
  have resolved' := resolve_symbolAt (⟨place, bound.2⟩ : Fin texts.length) bound.1
  rw [Fin.getElem_fin, isText] at resolved'
  exact congrArg Symbol.index ((inverse_ofTexts _).symbol_unique resolved' resolved)

/-- Whatever strings are interned in a fresh table, in whatever order and how often: symbols are
equal just if their strings are, a symbol stands for its string ever after, symbols are numbered
by first occurrence and without gaps, and the size is the number of different strings so far. -/
theorem symbols_stand_for_strings (texts : List String) :
    (∀ first second : Fin texts.length,
      symbolAt texts first = symbolAt texts second ↔ texts[first] = texts[second]) ∧
    (∀ (position : Fin texts.length) (calls : Nat), position < calls →
      (ofTexts (texts.take calls)).resolve (symbolAt texts position) = .ok texts[position]) ∧
    (∀ position : Fin texts.length, (symbolAt texts position).index =
      (texts.take (texts.idxOf texts[position])).toFinset.card) ∧
    (∀ calls number : Nat, number < (ofTexts (texts.take calls)).size ↔
      ∃ position : Fin texts.length, position < calls ∧
        (symbolAt texts position).index = number) ∧
    ∀ calls : Nat, (ofTexts (texts.take calls)).size = (texts.take calls).toFinset.card := by
  refine ⟨symbolAt_eq_iff, fun position calls => resolve_symbolAt position, index_symbolAt,
    fun calls number => ⟨exists_symbolAt, ?_⟩, fun calls => size_ofTexts _⟩
  rintro ⟨position, made, rfl⟩
  have present := resolve_eq_ok_iff.mp (resolve_symbolAt position made)
  exact (Array.getElem?_eq_some_iff.mp present).choose

/-- Two of the three strings are interned twice, the second time in the reverse order. -/
theorem symbols_stand_for_strings_again :
    let texts := ["list", "array", "", "array", "list"]
    symbolAt texts 1 = symbolAt texts 3 ∧ symbolAt texts 0 ≠ symbolAt texts 3 ∧
      (ofTexts (texts.take 4)).resolve (symbolAt texts 0) = .ok "list" ∧
      (symbolAt texts 4).index = 0 ∧ (ofTexts (texts.take 2)).size = 2 ∧
      (ofTexts texts).size = 3 := by
  intro texts
  obtain ⟨same_iff, resolved, numbered, _, sized⟩ := symbols_stand_for_strings texts
  refine ⟨(same_iff 1 3).mpr rfl, mt (same_iff 0 3).mp (by decide), resolved 0 4 (by decide),
    (numbered 4).trans (by decide), (sized 2).trans (by decide), ?_⟩
  exact (sized 5).trans (by decide)

end FeatureTypes.SymbolTable

import FeatureTypes.Failure
import Std.Data.TreeMap

/-!
# Symbol tables

A symbol table numbers strings by first occurrence.  Two strings get the same
symbol exactly when they are equal, so symbols can stand in for the strings.
-/

namespace FeatureTypes

/-- The number of a string in a symbol table. -/
structure Symbol where
  index : Nat
  deriving DecidableEq

/-- The distinct strings seen so far, in order of first occurrence, with an index
from each string to its symbol.

The index abstracts from hashing.  A table that computes the hash of a string once, looks the
string up by hash and equality, and enters it under the same hash if it is new, acts as this
index does, as long as equal strings have equal hashes. -/
structure SymbolTable where
  strings : Array String := #[]
  index : Std.TreeMap String Symbol := {}

namespace SymbolTable

/-- The number of distinct strings. -/
def size (table : SymbolTable) : Nat :=
  table.strings.size

/-- The symbol of `text`, and the table extended by `text` if it was new. -/
def intern (table : SymbolTable) (text : String) : Symbol × SymbolTable :=
  match table.index[text]? with
  | some symbol => (symbol, table)
  | none =>
    (⟨table.size⟩,
      { strings := table.strings.push text, index := table.index.insert text ⟨table.size⟩ })

/-- The string that a symbol stands for. -/
def resolve (table : SymbolTable) (symbol : Symbol) : Except Failure String :=
  match table.strings[symbol.index]? with
  | some text => .ok text
  | none => .error .unknownSymbol

end SymbolTable

end FeatureTypes

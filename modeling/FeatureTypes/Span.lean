/-!
# Source spans

A declaration or a use is located in its source text by a span.  Spans are
carried along by formals and reports; nothing here reads the text itself.
-/

namespace FeatureTypes

/-- A stretch of source text from offset `start` up to `stop`, together with
the line and the column at which it begins. -/
structure Span where
  start : Nat := 0
  stop : Nat := 0
  line : Nat := 0
  column : Nat := 0
  deriving DecidableEq, Inhabited

/-- The number of characters covered.  A span that stops before it starts
covers none. -/
def Span.length (span : Span) : Nat :=
  span.stop - span.start

end FeatureTypes

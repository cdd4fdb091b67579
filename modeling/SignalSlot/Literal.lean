set_option autoImplicit false

/-!
# Source ranges and string literals
-/

namespace SignalSlot

/-- An offset into the source. -/
abbrev SourceLocation := UInt32

/-- A range of source offsets.  Nothing forces `start` to be the smaller one. -/
structure SourceRange where
  start : SourceLocation
  stop : SourceLocation
  deriving DecidableEq, Repr, Inhabited

/--
A string literal as it stands at a call: its content after concatenation, the
width of one character in bytes, the range of the whole expression and the
locations of the string tokens it was put together from.
-/
structure StringLiteral where
  value : String
  charWidth : UInt8 := 1
  range : SourceRange
  tokens : List SourceLocation := []
  deriving DecidableEq, Repr, Inhabited

namespace StringLiteral

/-- A narrow literal of one token. -/
def narrow (value : String) (range : SourceRange) : StringLiteral :=
  { value, range }

/-- How many string tokens the literal was put together from. -/
def concatenated (literal : StringLiteral) : Nat :=
  max literal.tokens.length 1

end StringLiteral

end SignalSlot

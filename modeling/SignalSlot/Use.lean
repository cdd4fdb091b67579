import SignalSlot.Literal

set_option autoImplicit false

/-!
# Uses of declarations

A use says that a declaration is referred to at a range of the source.  The
recorder keeps the first use of each pair of declaration and range, in the order
in which they came.
-/

namespace SignalSlot

/-- The kind of a reference. -/
inductive UseKind where
  | call
  deriving DecidableEq, Repr, Inhabited

/-- How a declaration is used: its address is taken, it is not called directly. -/
inductive UseFlavor where
  | useAddress
  deriving DecidableEq, Repr, Inhabited

/-- A use of a declaration. -/
structure Use (δ : Type) where
  declaration : δ
  range : SourceRange
  kind : UseKind := .call
  context : Option String := none
  flavor : UseFlavor := .useAddress
  deriving DecidableEq, Repr, Inhabited

/-- What makes two uses the same. -/
def Use.key {δ : Type} (use : Use δ) : δ × SourceRange :=
  (use.declaration, use.range)

/-- The uses recorded so far and the pairs that were seen. -/
structure Recorder (δ : Type) where
  seen : List (δ × SourceRange) := []
  uses : List (Use δ) := []
  deriving DecidableEq, Repr, Inhabited

namespace Recorder

variable {δ : Type} [DecidableEq δ]

/-- A recorder that holds nothing. -/
def empty : Recorder δ := {}

/-- Records a use unless its pair was seen. -/
def register (r : Recorder δ) (use : Use δ) : Recorder δ :=
  if use.key ∈ r.seen then r
  else { seen := use.key :: r.seen, uses := r.uses ++ [use] }

/-- Records a list of uses in order. -/
def registerAll (r : Recorder δ) (uses : List (Use δ)) : Recorder δ :=
  uses.foldl register r

/-- A pair that was seen changes nothing. -/
theorem register_of_mem {r : Recorder δ} {use : Use δ} (h : use.key ∈ r.seen) :
    r.register use = r := by
  simp [register, h]

@[simp] theorem registerAll_nil (r : Recorder δ) : r.registerAll [] = r := rfl

end Recorder

end SignalSlot

import SignalSlot.Text.Blank

set_option autoImplicit false

/-!
# Types of parameters and results

A type is a name with a `const` qualifier, a number of `*` declarators and an
outermost `&`.  This file prints types and normalises the printed form of a
parameter, so that `const T &` and `const T` both read `T`.
-/

namespace SignalSlot

/--
A type.  `isConst` qualifies the named type, `pointer` counts the `*` applied to
it and `reference` marks an outermost `&`.
-/
structure TypeDesc where
  name : String
  isConst : Bool := false
  pointer : UInt8 := 0
  reference : Bool := false
  deriving DecidableEq, Repr, Inhabited

/-- How much of the scope of a type's name is printed. -/
inductive Scope where
  /-- The name as written. -/
  | full
  /-- The outermost name without its qualifiers. -/
  | suppressed
  deriving DecidableEq, Repr, Inhabited

namespace TypeDesc

/-! ## Common shapes -/

/-- The type `T`. -/
def named (name : String) : TypeDesc := { name }

/-- The type `const T &`. -/
def constRef (name : String) : TypeDesc := { name, isConst := true, reference := true }

/-- The type `T *`. -/
def pointerTo (name : String) : TypeDesc := { name, pointer := 1 }

/-! ## Printing -/

/--
What follows the last `::` in front of the first `<`.  An overlapping `:::`
counts as two places, of which the later one is taken.
-/
def afterLastScope? : List Char → Option (List Char)
  | [] => none
  | c :: text =>
    if c = '<' then none
    else
      match afterLastScope? text with
      | some rest => some rest
      | none =>
        match c, text with
        | ':', ':' :: rest => some rest
        | _, _ => none

/-- The name without the qualifiers of the outermost name. -/
def unqualified (name : List Char) : List Char :=
  (afterLastScope? name).getD name

/-- The printed name under a policy. -/
def nameText (ty : TypeDesc) : Scope → List Char
  | .full => ty.name.toList
  | .suppressed => unqualified ty.name.toList

/-- The characters of a printed type, such as `const T *` or `T &`. -/
def text (ty : TypeDesc) (scope : Scope) : List Char :=
  (if ty.isConst then "const ".toList else []) ++ ty.nameText scope ++
    (if ty.pointer = 0 then [] else ' ' :: List.replicate ty.pointer.toNat '*') ++
    (if ty.reference then " &".toList else [])

/-- Prints a type. -/
def print (ty : TypeDesc) (scope : Scope) : String :=
  String.ofList (ty.text scope)

/-! ## Normalising -/

/-- Whether the type is a reference to a `const` value. -/
def isConstReferent (ty : TypeDesc) : Bool :=
  ty.reference && ty.isConst && ty.pointer == 0

/-- The type without its outermost `&`. -/
def nonReference (ty : TypeDesc) : TypeDesc :=
  { ty with reference := false }

/-- The type without a top-level `const`; behind `*` or `&` it is not top-level. -/
def stripLocalConst (ty : TypeDesc) : TypeDesc :=
  if ty.reference || ty.pointer != 0 then ty else { ty with isConst := false }

/-- The normal form of a parameter's type. -/
def normalized (ty : TypeDesc) : TypeDesc :=
  (if ty.isConstReferent then ty.nonReference else ty).stripLocalConst

/-- The text an argument of a signature is compared with. -/
def parameterText (ty : TypeDesc) : String :=
  String.ofList (Text.trim (ty.normalized.text .suppressed))

end TypeDesc

end SignalSlot

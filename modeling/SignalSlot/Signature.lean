import SignalSlot.TypeText

set_option autoImplicit false

/-!
# Signatures

A signature text is a one-character marker (`1` for a slot, `2` for a signal)
followed by `name(type,type,…)`.  Reading one finds the name and the text of
every argument type; commas inside brackets or template arguments do not
separate arguments.

Brackets of the three kinds `()`, `[]` and `{}` share one counter, and angle
brackets have a second one that moves only while the first is zero.  A closer
without an opener leaves its counter at zero.
-/

namespace SignalSlot

/-- A signature: the method's name and its argument types, in order. -/
structure Signature where
  name : String
  arguments : List String
  deriving DecidableEq, Repr, Inhabited

namespace Signature

/-! ## Nesting -/

/-- How many brackets, and how many angle brackets outside them, are open. -/
structure Nesting where
  groups : Nat
  angles : Nat
  deriving DecidableEq, Repr, Inhabited

namespace Nesting

/-- Nothing is open. -/
def outside : Nesting := ⟨0, 0⟩

/-- The nesting after one more character. -/
def step (n : Nesting) (c : Char) : Nesting :=
  if c = '(' ∨ c = '[' ∨ c = '{' then { n with groups := n.groups + 1 }
  else if c = ')' ∨ c = ']' ∨ c = '}' then { n with groups := n.groups - 1 }
  else if c = '<' ∧ n.groups = 0 then { n with angles := n.angles + 1 }
  else if c = '>' ∧ n.groups = 0 then { n with angles := n.angles - 1 }
  else n

end Nesting

/-! ## Fields -/

/-- A non-empty list of fields and the text after the parenthesis that ends it. -/
structure Fields where
  first : List Char
  others : List (List Char)
  rest : List Char
  deriving DecidableEq, Repr, Inhabited

namespace Fields

/-- All fields in order. -/
def all (f : Fields) : List (List Char) :=
  f.first :: f.others

/-- One more character in front of the first field. -/
def grow (c : Char) (f : Fields) : Fields :=
  { f with first := c :: f.first }

/-- One more field, an empty one, in front. -/
def separate (f : Fields) : Fields :=
  { f with first := [], others := f.first :: f.others }

/--
Splits a text at the commas that stand outside every bracket, up to the first
closing parenthesis that stands outside every bracket.  There is no answer when
the text ends before that parenthesis.
-/
def read? : Nesting → List Char → Option Fields
  | _, [] => none
  | n, c :: text =>
    if n = .outside ∧ c = ')' then some ⟨[], [], text⟩
    else if n = .outside ∧ c = ',' then (read? .outside text).map separate
    else (read? (n.step c) text).map (grow c)

end Fields

/-! ## Reading -/

/-- The fewest bytes that hold a marker, a one-letter name and `()`. -/
def minimumLength : Nat := 4

/-- The text in front of the first NUL. -/
def beforeNul (text : List Char) : List Char :=
  text.takeWhile (· ≠ '\x00')

/--
The argument types of a list of fields.  A single field that spells nothing
means that there are no arguments.
-/
def argumentsOf (fields : List (List Char)) : List (List Char) :=
  let texts := fields.map fun f => TypeText.unwrap (Text.trim f)
  if texts = [[]] then [] else texts

/--
Reads marker, name and fields of a text that is already trimmed and cut.  The
marker is one character of one byte, and the name has at least one byte and no
parenthesis.
-/
def ofTrimmed? (text : List Char) : Option Signature :=
  let front := text.takeWhile (· ≠ '(')
  match front, text.drop front.length with
  | marker :: name, '(' :: body =>
    if ')' ∈ front ∨ Text.byteLength front < 2 ∨ marker.utf8Size ≠ 1 then none
    else
      match Fields.read? .outside body with
      | some ⟨first, others, []⟩ =>
        some ⟨String.ofList (Text.trim name),
          (argumentsOf (first :: others)).map String.ofList⟩
      | _ => none
  | _, _ => none

/--
Reads a signature text.  Blanks around it are dropped, texts of fewer than four
bytes are refused, and whatever follows a NUL does not belong to it.
-/
def parse? (raw : String) : Option Signature :=
  let text := Text.trim raw.toList
  if Text.byteLength text < minimumLength then none
  else ofTrimmed? (Text.trim (beforeNul text))

end Signature

end SignalSlot

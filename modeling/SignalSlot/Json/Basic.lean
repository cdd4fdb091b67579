set_option autoImplicit false

/-!
# JSON documents

Documents keep the order of their keys and every repeated key.  Two further
leaves describe a text that is not, or not entirely, a document, so that a
decoder which goes through it from left to right meets each fault where it
stands: `broken` is the place where the text stops being JSON, and `tooDeep`
marks a container that is nested deeper than decoders follow.
-/

namespace SignalSlot

/-- The content of a quoted string. -/
inductive Quoted where
  /-- A text. -/
  | text (s : String)
  /-- A string with half of a surrogate pair, which is no text. -/
  | unpaired
  deriving DecidableEq, Repr, Inhabited

/-- A number, as far as decoders tell numbers apart. -/
inductive Number where
  /-- Digits only. -/
  | natural (n : Nat)
  /-- A number with a sign, a fraction or an exponent. -/
  | other
  deriving DecidableEq, Repr, Inhabited

/-- A JSON document, or what could be read of one. -/
inductive Json where
  | null
  | bool (b : Bool)
  | number (n : Number)
  | string (q : Quoted)
  | array (items : List Json)
  | object (members : List (Quoted × Json))
  /-- A container nested deeper than decoders follow. -/
  | tooDeep (value : Json)
  /-- The place where the text stops being JSON. -/
  | broken
  deriving Repr, Inhabited, BEq

namespace Json

/-- A text as a document. -/
def text (s : String) : Json := .string (.text s)

/-- A natural number as a document. -/
def nat (n : Nat) : Json := .number (.natural n)

/-- An object with texts as keys. -/
def record (members : List (String × Json)) : Json :=
  .object (members.map fun (k, v) => (.text k, v))

/-- A value or `null`. -/
def optional {α : Type} (f : α → Json) : Option α → Json
  | some a => f a
  | none => .null

mutual

/-- Whether a whole value was read; its strings need not be texts. -/
def isWhole : Json → Bool
  | .array items => allWhole items
  | .object members => membersWhole members
  | .tooDeep value => value.isWhole
  | .broken => false
  | _ => true

/-- Whether all values of a list were read. -/
def allWhole : List Json → Bool
  | [] => true
  | v :: rest => v.isWhole && allWhole rest

/-- Whether all values of an object were read. -/
def membersWhole : List (Quoted × Json) → Bool
  | [] => true
  | (_, v) :: rest => v.isWhole && membersWhole rest

end

/-- The value of a key, when the document is an object that has it. -/
def get? (j : Json) (key : String) : Option Json :=
  match j with
  | .object members => (members.find? fun (k, _) => k == .text key).map (·.2)
  | _ => none

end Json

end SignalSlot

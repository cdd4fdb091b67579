import SignalSlot.Json.Reader

set_option autoImplicit false

/-!
# Decoding JSON documents

A record is written either as an object or as an array of its fields in order.
In an object, keys may come in any order and, unless the record is closed, keys
of no field are passed over.  In an array, fields at the end may be left out if
they have a default.

Of several faults the one that stands first in the text is reported.  Every
fault of a record therefore has a place: the position of the member or item it
concerns, where a field that is missing counts as standing behind all members.
-/

namespace SignalSlot

/-- Why a document is refused. -/
inductive DecodeError where
  /-- The text is no JSON, or a value has the wrong form or range. -/
  | malformed
  /-- An object lacks a field. -/
  | missingField (name : String)
  /-- An object has a field twice. -/
  | duplicateField (name : String)
  /-- An object of a closed record has a key of no field. -/
  | unknownField (name : String) (expected : List String)
  /-- A variant is none of those expected. -/
  | unknownVariant (name : String) (expected : List String)
  deriving DecidableEq, Repr, Inhabited

namespace DecodeError

/-- A name in backquotes. -/
def tick (name : String) : String := "`" ++ name ++ "`"

/-- The names that were expected. -/
def expectation : List String → String
  | [] => "nothing"
  | [a] => tick a
  | [a, b] => tick a ++ " or " ++ tick b
  | names => "one of " ++ ", ".intercalate (names.map tick)

/-- The text of an error that has one. -/
def message? : DecodeError → Option String
  | .malformed => none
  | .missingField name => some ("missing field " ++ tick name)
  | .duplicateField name => some ("duplicate field " ++ tick name)
  | .unknownField name expected =>
    some ("unknown field " ++ tick name ++ ", expected " ++ expectation expected)
  | .unknownVariant name expected =>
    some ("unknown variant " ++ tick name ++ ", expected " ++ expectation expected)

end DecodeError

namespace Json

/-- The outcome of decoding. -/
abbrev Decoded := Except DecodeError

/-! ## Values -/

/-- A text. -/
def decodeText : Json → Decoded String
  | .string (.text s) => .ok s
  | _ => .error .malformed

/-- A truth value. -/
def decodeBool : Json → Decoded Bool
  | .bool b => .ok b
  | _ => .error .malformed

/-- A natural number below a bound, written with digits only. -/
def decodeBelow (bound : Nat) : Json → Decoded Nat
  | .number (.natural n) => if n < bound then .ok n else .error .malformed
  | _ => .error .malformed

/-- A number of 8 bits. -/
def decodeWord8 (j : Json) : Decoded UInt8 := UInt8.ofNat <$> decodeBelow UInt8.size j

/-- A number of 32 bits. -/
def decodeWord32 (j : Json) : Decoded UInt32 := UInt32.ofNat <$> decodeBelow UInt32.size j

/-- A number of 64 bits. -/
def decodeWord64 (j : Json) : Decoded UInt64 := UInt64.ofNat <$> decodeBelow UInt64.size j

/-- A list, of which the first item that is refused decides. -/
def decodeList {α : Type} (item : Json → Decoded α) : Json → Decoded (List α)
  | .array items => items.mapM item
  | _ => .error .malformed

/-- A value or `null`. -/
def decodeOptional {α : Type} (value : Json → Decoded α) : Json → Decoded (Option α)
  | .null => .ok none
  | j => some <$> value j

/-- One of several names, each without content: a string, or an object with `null`. -/
def decodeName {α : Type} (names : List (String × α)) (j : Json) : Decoded α :=
  let find (name : String) : Decoded α :=
    match names.lookup name with
    | some a => .ok a
    | none => .error (.unknownVariant name (names.map (·.1)))
  match j with
  | .string (.text name) => find name
  | .object ((.text name, content) :: rest) => do
    let a ← find name
    match content, rest with
    | .null, [] => .ok a
    | _, _ => .error .malformed
  | _ => .error .malformed

/-! ## Records -/

/-- A fault and its place. -/
structure Fault where
  place : Nat
  error : DecodeError
  deriving DecidableEq, Repr, Inhabited

/-- What several fields of a record give together, or the first fault in them. -/
def Fields (α : Type) : Type := Except Fault α

namespace Fields

variable {α β : Type}

/-- Of two faults, the one that stands first. -/
def earlier (f g : Fault) : Fault :=
  if g.place < f.place then g else f

/-- Both parts, or the first fault of either. -/
def both (f : Fields (α → β)) (x : Fields α) : Fields β :=
  match f, x with
  | .ok f, .ok a => .ok (f a)
  | .ok _, .error e => .error e
  | .error e, .ok _ => .error e
  | .error e, .error e' => .error (earlier e e')

instance : Applicative Fields where
  pure a := Except.ok a
  seq f x := both f (x ())

end Fields

/-- The content of a record: named members, or items in the order of the fields. -/
inductive Content (β : Type) where
  | members (ms : List (Quoted × β))
  | items (vs : List β)
  deriving Repr, Inhabited

/-- A record with its fields in order; values have the type `β`. -/
structure Record (β : Type) where
  fields : List String
  /-- Whether keys of no field are refused. -/
  closed : Bool
  content : Content β
  deriving Repr, Inhabited

namespace Record

variable {α β : Type}

/-- The first member of a name, with its place. -/
def lookup (name : String) : Nat → List (Quoted × β) → Option (Nat × β)
  | _, [] => none
  | place, (k, v) :: rest =>
    if k = .text name then some (place, v) else lookup name (place + 1) rest

/-- The first fault in the keys of an object, and in the values that are passed over. -/
def keyFault? (fields : List String) (closed : Bool) (isWhole : β → Bool) :
    Nat → List String → List (Quoted × β) → Option Fault
  | _, _, [] => none
  | place, _, (.unpaired, _) :: _ => some ⟨place, .malformed⟩
  | place, seen, (.text name, v) :: rest =>
    if fields.contains name then
      if seen.contains name then some ⟨place, .duplicateField name⟩
      else keyFault? fields closed isWhole (place + 1) (name :: seen) rest
    else if closed then some ⟨place, .unknownField name fields⟩
    else if isWhole v then keyFault? fields closed isWhole (place + 1) seen rest
    else some ⟨place, .malformed⟩

/-- The first fault that concerns no field's value. -/
def fault? (r : Record β) (isWhole : β → Bool) : Option Fault :=
  match r.content with
  | .members ms => keyFault? r.fields r.closed isWhole 0 [] ms
  | .items vs =>
    if r.fields.length < vs.length then some ⟨r.fields.length, .malformed⟩ else none

/-- A value at its place. -/
def placed (place : Nat) : Decoded α → Fields α
  | .ok a => Except.ok a
  | .error e => Except.error ⟨place, e⟩

/--
The field of a name.  `absent` stands for it in an object that lacks it, and
`short` in an array that is too short.
-/
def field (r : Record β) (name : String) (value : β → Decoded α) (absent short : Option α) :
    Fields α :=
  match r.content with
  | .members ms =>
    match lookup name 0 ms with
    | some (place, v) => placed place (value v)
    | none =>
      match absent with
      | some a => Except.ok a
      | none => Except.error ⟨ms.length, .missingField name⟩
  | .items vs =>
    let place := r.fields.idxOf name
    match vs[place]? with
    | some v => placed place (value v)
    | none =>
      match short with
      | some a => Except.ok a
      | none => Except.error ⟨place, .malformed⟩

/-- A field that must be there. -/
def required (r : Record β) (name : String) (value : β → Decoded α) : Fields α :=
  r.field name value none none

/-- A field with a default, which may be left out. -/
def defaulted (r : Record β) (name : String) (value : β → Decoded α) (a : α) : Fields α :=
  r.field name value (some a) (some a)

/-- All fields together, or the first fault. -/
def finish (r : Record β) (isWhole : β → Bool) (fields : Fields α) : Decoded α :=
  match fields, r.fault? isWhole with
  | .ok a, none => .ok a
  | .ok _, some f => .error f.error
  | .error f, none => .error f.error
  | .error f, some g => .error (Fields.earlier f g).error

/-- A field that may be absent or `null`, but not left out of an array. -/
def nullable (r : Record Json) (name : String) (value : Json → Decoded α) :
    Fields (Option α) :=
  r.field name (decodeOptional value) (some none) none

/-- A field that may be absent, `null` or left out of an array. -/
def optional (r : Record Json) (name : String) (value : Json → Decoded α) :
    Fields (Option α) :=
  r.field name (decodeOptional value) (some none) (some none)

end Record

/-- A record of a document. -/
def decodeRecord {α : Type} (fields : List String) (closed : Bool)
    (assemble : Record Json → Fields α) : Json → Decoded α
  | .object ms =>
    let r : Record Json := ⟨fields, closed, .members ms⟩
    r.finish isWhole (assemble r)
  | .array vs =>
    let r : Record Json := ⟨fields, closed, .items vs⟩
    r.finish isWhole (assemble r)
  | _ => .error .malformed

/-- Decodes a text that holds one document and nothing else. -/
def decodeWith {α : Type} (decode : Json → Decoded α) (text : String) : Decoded α := do
  let doc := read text
  let a ← decode doc.value
  if doc.alone then .ok a else .error .malformed

end Json

end SignalSlot

import SignalSlot.Json.Token

set_option autoImplicit false

/-!
# Reading JSON texts

Tokens are put together with a stack of the containers that are open.  A text
that breaks off, or goes wrong, still gives a document: everything read so far,
with a `broken` leaf where the fault is.
-/

namespace SignalSlot.Json

/-- A container whose end has not been read, with what was read of it, last first. -/
inductive Frame where
  | array (items : List Json)
  /-- An object in which the value of `key` is being read. -/
  | object (members : List (Quoted × Json)) (key : Quoted)
  deriving Repr, Inhabited

/-- The most containers that may be nested. -/
def depthLimit : Nat := 127

/-- Marks a container that stands inside as many containers as may be nested. -/
def within (stack : List Frame) (container : Json) : Json :=
  if depthLimit ≤ stack.length then .tooDeep container else container

/-- What was read, and what must come next. -/
inductive State where
  /-- A value. -/
  | value (stack : List Frame)
  /-- The first item of an array, or its end. -/
  | firstItem (stack : List Frame)
  /-- The first key of an object, or its end. -/
  | firstKey (stack : List Frame)
  /-- A key. -/
  | key (members : List (Quoted × Json)) (stack : List Frame)
  /-- The colon after a key. -/
  | colon (members : List (Quoted × Json)) (key : Quoted) (stack : List Frame)
  /-- Whatever may follow a value. -/
  | after (v : Json) (stack : List Frame)
  deriving Repr, Inhabited

namespace State

/-- A value starts. -/
def startValue (stack : List Frame) : Token → Option State
  | .null => some (.after .null stack)
  | .bool b => some (.after (.bool b) stack)
  | .number n => some (.after (.number n) stack)
  | .string q => some (.after (.string q) stack)
  | .openBracket => some (.firstItem stack)
  | .openBrace => some (.firstKey stack)
  | _ => none

/-- The state after one more token, if the token may come. -/
def step? : State → Token → Option State
  | .value stack, t => startValue stack t
  | .firstItem stack, .closeBracket => some (.after (within stack (.array [])) stack)
  | .firstItem stack, t => startValue (.array [] :: stack) t
  | .firstKey stack, .closeBrace => some (.after (within stack (.object [])) stack)
  | .firstKey stack, .string q => some (.colon [] q stack)
  | .key members stack, .string q => some (.colon members q stack)
  | .colon members q stack, .colon => some (.value (.object members q :: stack))
  | .after v (.array items :: stack), .comma => some (.value (.array (v :: items) :: stack))
  | .after v (.array items :: stack), .closeBracket =>
    some (.after (within stack (.array (v :: items).reverse)) stack)
  | .after v (.object members q :: stack), .comma => some (.key ((q, v) :: members) stack)
  | .after v (.object members q :: stack), .closeBrace =>
    some (.after (within stack (.object ((q, v) :: members).reverse)) stack)
  | _, _ => none

/-- A member of which not even the key could be read. -/
def brokenMember : Quoted × Json := (.unpaired, .broken)

/-- Closes the containers around a value that is the last thing read. -/
def unwind : Json → List Frame → Json
  | v, [] => v
  | v, .array items :: stack => unwind (within stack (.array (v :: items).reverse)) stack
  | v, .object members q :: stack =>
    unwind (within stack (.object ((q, v) :: members).reverse)) stack

/-- What was read of a text that goes no further. -/
def abandon : State → Json
  | .value stack => unwind .broken stack
  | .firstItem stack => unwind (within stack (.array [.broken])) stack
  | .firstKey stack => unwind (within stack (.object [brokenMember])) stack
  | .key members stack => unwind (within stack (.object (brokenMember :: members).reverse)) stack
  | .colon members q stack =>
    unwind (within stack (.object ((q, .broken) :: members).reverse)) stack
  | .after v [] => v
  | .after v (.array items :: stack) =>
    unwind (within stack (.array (.broken :: v :: items).reverse)) stack
  | .after v (.object members q :: stack) =>
    unwind (within stack (.object (brokenMember :: (q, v) :: members).reverse)) stack

end State

/-- What was read of a text. -/
structure Document where
  /-- The value the text starts with. -/
  value : Json
  /-- Whether the value is all that the text holds. -/
  alone : Bool
  deriving Repr, Inhabited

/-- Puts tokens together from a state on. -/
def assemble : State → List Token → Document
  | .after v [], [] => ⟨v, true⟩
  | state, [] => ⟨state.abandon, false⟩
  | state, t :: rest =>
    match state.step? t with
    | some state' => assemble state' rest
    | none => ⟨state.abandon, false⟩

/-- Reads a text. -/
def read (text : String) : Document :=
  assemble (.value []) (Token.scan text.toList)

end SignalSlot.Json
